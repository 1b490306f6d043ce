import Mathlib.Data.Finset.Card
import Mathlib.Data.Nat.Bitwise
import Mathlib.Order.Interval.Finset.Nat
import EmotionEngine.Memory.Table
import EmotionEngine.Proofs.Memory.Refine

/-!
The page table by words does what memory by regions does. The word of a page is packed from its entry and its code
state (`PageWord.pack`), and each field can be read from it, since there are fewer frames than the field can
number: no more are handed out than there are pages (`Memory.Ruled.small`).

`Tabled.Tabulates` relates a table to a memory. Every function on tables answers as its counterpart, and keeps the
relation.

Main statement: `Tabled.session_refines`, for any calls in any order.
-/

namespace EmotionEngine

namespace PageWord

/-! ## Fields of words -/

section
variable (e : PageWord)

theorem toNat_lower : (e &&& lower).toNat = e.toNat % 2 ^ 32 := by
  rw [BitVec.toNat_and]
  exact Nat.and_two_pow_sub_one_eq_mod e.toNat 32

theorem frame_eq : e.frame = e.toNat % 2 ^ 32 / 4 := by
  unfold frame
  rw [BitVec.toNat_ushiftRight, toNat_lower, Nat.shiftRight_eq_div_pow]

theorem version_toNat : e.version.toNat = e.toNat / 2 ^ 32 := by
  have := e.isLt
  unfold version
  rw [BitVec.toNat_setWidth, BitVec.toNat_ushiftRight, Nat.shiftRight_eq_div_pow]
  omega

theorem isUnmapped_iff : e.isUnmapped = true ↔ e.toNat % 2 ^ 32 = 2 ^ 32 - 1 := by
  unfold isUnmapped
  rw [decide_eq_true_eq, BitVec.toNat_eq, toNat_lower]
  rfl

theorem has_flags_iff : e.has flags = true ↔ e.toNat % 4 ≠ 0 := by
  have both : (e &&& flags).toNat = e.toNat % 2 ^ 2 := by
    rw [BitVec.toNat_and]
    exact Nat.and_two_pow_sub_one_eq_mod e.toNat 2
  unfold has
  rw [decide_eq_true_eq, ne_eq, BitVec.toNat_eq, both]
  rfl

theorem has_code_iff : e.has code = true ↔ e.toNat % 2 = 1 := by
  have bit : (e &&& code).toNat = e.toNat % 2 ^ 1 := by
    rw [BitVec.toNat_and]
    exact Nat.and_two_pow_sub_one_eq_mod e.toNat 1
  unfold has
  rw [decide_eq_true_eq, ne_eq, BitVec.toNat_eq, bit]
  show ¬e.toNat % 2 = 0 ↔ _
  omega

theorem has_readOnly_iff : e.has readOnly = true ↔ e.toNat / 2 % 2 = 1 := by
  have bit : (e &&& readOnly).toNat = (e.toNat.testBit 1).toNat * 2 ^ 1 := by
    rw [BitVec.toNat_and]
    exact Nat.and_two_pow e.toNat 1
  unfold has
  rw [decide_eq_true_eq, ne_eq, BitVec.toNat_eq, bit, Nat.testBit_eq_decide_div_mod_eq]
  by_cases odd : e.toNat / 2 % 2 = 1 <;> simp [odd]

theorem or_code_toNat : (e ||| code).toNat = e.toNat / 2 * 2 + 1 := by
  rw [BitVec.toNat_or, show code.toNat = 1 from rfl]
  have half : (e.toNat ||| 1) / 2 = e.toNat / 2 := by
    rw [Nat.or_div_two]
    exact Nat.or_zero _
  have odd : (e.toNat ||| 1) % 2 = 1 := Nat.or_mod_two_eq_one.2 (.inr rfl)
  omega

theorem written_toNat : e.written.toNat = (e.toNat / 2 * 2 + 2 ^ 32) % 2 ^ 64 := by
  have cleared : (e &&& ~~~code).toNat = e.toNat / 2 * 2 := by
    have bound := e.isLt
    rw [BitVec.toNat_and, show (~~~code).toNat = 2 ^ 64 - 2 from rfl]
    have half : (e.toNat &&& (2 ^ 64 - 2)) / 2 = e.toNat / 2 := by
      rw [Nat.and_div_two, show (2 ^ 64 - 2) / 2 = 2 ^ 63 - 1 from rfl, Nat.and_two_pow_sub_one_eq_mod]
      omega
    have even : (e.toNat &&& (2 ^ 64 - 2)) % 2 ≠ 1 := fun odd => absurd (Nat.and_mod_two_eq_one.1 odd).2 (by decide)
    omega
  unfold written
  rw [BitVec.toNat_add, cleared]
  rfl

end

/-! ## Words of pages -/

/-- The word of a page, from its entry and its code state. -/
def pack : Option PageEntry → CodeState → PageWord
  | none, _ => unmapped
  | some e, s =>
    BitVec.ofNat 64 (s.version.toNat * 2 ^ 32 + e.frame * 4 + e.readOnly.toNat * 2 + s.marked.toNat)

section
variable {e : PageEntry} (small : e.frame < 2 ^ 30 - 1) (s : CodeState)
include small

theorem pack_toNat : (pack (some e) s).toNat =
    s.version.toNat * 2 ^ 32 + e.frame * 4 + e.readOnly.toNat * 2 + s.marked.toNat := by
  have version := s.version.isLt
  have bit := e.readOnly.toNat_le
  have bit' := s.marked.toNat_le
  unfold pack
  rw [BitVec.toNat_ofNat, Nat.mod_eq_of_lt (by omega)]

theorem pack_isUnmapped : (pack (some e) s).isUnmapped = false := by
  have bit := e.readOnly.toNat_le
  have bit' := s.marked.toNat_le
  rw [Bool.eq_false_iff, ne_eq, isUnmapped_iff, pack_toNat small]
  omega

theorem pack_frame : (pack (some e) s).frame = e.frame := by
  have bit := e.readOnly.toNat_le
  have bit' := s.marked.toNat_le
  rw [frame_eq, pack_toNat small]
  omega

theorem pack_version : (pack (some e) s).version = s.version := by
  have bit := e.readOnly.toNat_le
  have bit' := s.marked.toNat_le
  apply BitVec.eq_of_toNat_eq
  rw [version_toNat, pack_toNat small]
  omega

theorem pack_has_code : (pack (some e) s).has code = s.marked := by
  have bit := e.readOnly.toNat_le
  rw [Bool.eq_iff_iff, has_code_iff, pack_toNat small]
  cases s.marked <;> simp <;> omega

theorem pack_has_readOnly : (pack (some e) s).has readOnly = e.readOnly := by
  have bit' := s.marked.toNat_le
  rw [Bool.eq_iff_iff, has_readOnly_iff, pack_toNat small]
  cases e.readOnly <;> simp <;> omega

theorem pack_has_flags : (pack (some e) s).has flags = (e.readOnly || s.marked) := by
  rw [Bool.eq_iff_iff, has_flags_iff, pack_toNat small]
  cases e.readOnly <;> cases s.marked <;> simp <;> omega

theorem pack_or_code : pack (some e) s ||| code = pack (some e) { s with marked := true } := by
  have bit' := s.marked.toNat_le
  apply BitVec.eq_of_toNat_eq
  rw [or_code_toNat, pack_toNat small, pack_toNat small]
  dsimp only [Bool.toNat_true]
  omega

theorem pack_written (marked : s.marked = true) :
    (pack (some e) s).written = pack (some e) { version := s.version + 1, marked := false } := by
  have bit := e.readOnly.toNat_le
  apply BitVec.eq_of_toNat_eq
  rw [written_toNat, pack_toNat small, pack_toNat small, marked]
  dsimp only [Bool.toNat_true, Bool.toNat_false]
  rw [BitVec.toNat_add]
  show _ = (s.version.toNat + 1) % 2 ^ 32 * 2 ^ 32 + _ + _ + 0
  have := s.version.isLt
  omega

theorem pack_ofFrame : ofFrame e.frame (if e.readOnly then readOnly else 0) = pack (some e) {} := by
  have flag : (if e.readOnly then readOnly else 0 : PageWord).toNat = e.readOnly.toNat * 2 := by
    cases e.readOnly <;> rfl
  have bit := e.readOnly.toNat_le
  apply BitVec.eq_of_toNat_eq
  unfold ofFrame
  rw [pack_toNat small, BitVec.toNat_or, flag, BitVec.toNat_shiftLeft, BitVec.toNat_ofNat,
    Nat.mod_eq_of_lt (by omega : e.frame < 2 ^ 64), Nat.mod_eq_of_lt (by rw [Nat.shiftLeft_eq]; omega),
    ← Nat.shiftLeft_add_eq_or_of_lt (by omega), Nat.shiftLeft_eq]
  simp

end

end PageWord

/-! ## Frames -/

namespace Memory

/-- How many pages there are. -/
def numPages : Nat := physSpace / pageSize

def mapped (m : Memory) : Finset Nat := (Finset.range numPages).filter fun p => (m.page? p).isSome

/-- Every mapped page has a frame of its own, and no other frames are handed out. -/
structure Ruled (m : Memory) : Prop where
  sound : m.Sound
  filled : ∀ r ∈ m.regions, 0 < r.count
  counted : m.used = m.mapped.card

theorem ruled_empty (size : Nat) (board : Board) : (empty size board).Ruled where
  sound := sound_empty size board
  filled := nofun
  counted := by
    unfold mapped
    rw [Finset.filter_false_of_mem fun p _ => nofun]
    rfl

/-- The field of a word has a number for every frame. -/
theorem Ruled.small {m : Memory} (h : m.Ruled) {p : Nat} {e : PageEntry} (found : m.page? p = some e) :
    e.frame < 2 ^ 30 - 1 := by
  have below := h.sound.below found
  have few : m.mapped.card ≤ numPages := (Finset.card_filter_le _ _).trans (Finset.card_range _).le
  rw [h.counted] at below
  rw [show numPages = 131072 from rfl] at few
  omega

theorem Ruled.congr {m m' : Memory} (h : m.Ruled) (regions : m'.regions = m.regions) (used : m'.used = m.used) :
    m'.Ruled where
  sound := h.sound.of_regions regions used
  filled := by
    rw [regions]
    exact h.filled
  counted := by
    unfold mapped
    simp only [page?_congr regions]
    rw [used]
    exact h.counted

theorem Ruled.meets_iff {m : Memory} (h : m.Ruled) {first count : Nat} (nonempty : 0 < count) :
    m.regions.any (·.meets first count) = true ↔ ∃ i < count, (m.page? (first + i)).isSome = true := by
  rw [List.any_eq_true]
  constructor
  · rintro ⟨r, mem, meets⟩
    have wide := h.filled r mem
    simp only [Region.meets, Bool.and_eq_true, decide_eq_true_eq] at meets
    refine ⟨max first r.first - first, by omega, page?_isSome.2 ⟨r, mem, ?_⟩⟩
    simp only [Region.covers, Bool.and_eq_true, decide_eq_true_eq]
    omega
  · rintro ⟨i, short, covered⟩
    obtain ⟨r, mem, covers⟩ := page?_isSome.1 covered
    exact ⟨r, mem, Region.meets_of_covers covers (by omega) (by omega)⟩

/-- Pages that had no frame get the next ones. -/
theorem Ruled.map {m : Memory} (h : m.Ruled) {first count : Nat} (nonempty : 0 < count)
    (inside : first + count ≤ numPages) (free : ∀ i < count, m.page? (first + i) = none) (readOnly : Bool)
    (sound : Sound { m with
      used := m.used + count
      regions := { first, count, frame := m.used, readOnly } :: m.regions }) :
    Ruled { m with
      used := m.used + count
      regions := { first, count, frame := m.used, readOnly } :: m.regions } where
  sound := sound
  filled r mem := by
    obtain rfl | old := List.mem_cons.1 mem
    · exact nonempty
    · exact h.filled r old
  counted := by
    have grown : mapped { m with
          used := m.used + count
          regions := { first, count, frame := m.used, readOnly } :: m.regions } =
        m.mapped ∪ Finset.Ico first (first + count) := by
      ext p
      simp only [mapped, Finset.mem_filter, Finset.mem_range, Finset.mem_union, Finset.mem_Ico, page?_cons,
        Region.covers, Bool.and_eq_true, decide_eq_true_eq]
      by_cases new : first ≤ p ∧ p < first + count
      · rw [if_pos new]
        simp only [Option.isSome_some, and_true, new, or_true, iff_true]
        omega
      · rw [if_neg new]
        simp only [new, or_false]
    have apart : Disjoint m.mapped (Finset.Ico first (first + count)) := by
      rw [Finset.disjoint_right]
      intro p new old
      rw [Finset.mem_Ico] at new
      have unmapped := free (p - first) (by omega)
      rw [Nat.add_sub_cancel' new.1] at unmapped
      rw [mapped, Finset.mem_filter, unmapped] at old
      cases old.2
    rw [grown, Finset.card_union_of_disjoint apart, Nat.card_Ico, Nat.add_sub_cancel_left, ← h.counted]

theorem storeBytes_eq_put (m : Memory) (pos : Nat) (data : List Byte) :
    m.storeBytes pos data = { m with store := putBytes m.store pos data } := by
  induction data generalizing m pos with
  | nil => rfl
  | cons b rest ih => exact ih _ _

end Memory

/-! ## Tables of memories -/

namespace Tabled

open Memory (Ruled)

/-- A table tells of each page what a memory knows of it; all else is the same. -/
structure Tabulates (t : Tabled) (m : Memory) : Prop where
  ruled : m.Ruled
  frames : t.frames = m.frames
  used : t.used = m.used
  devices : t.devices = m.devices
  board : t.board = m.board
  past : t.past = m.past
  store : t.store = m.store
  events : t.events = m.events
  words : ∀ p, t.entry p = .pack (m.page? p) (m.codeState p)
  /-- Nothing is known of code where nothing is mapped. -/
  blank : ∀ p, m.page? p = none → m.codeState p = {}

theorem tabulates_empty (size : Nat) (board : Board) : (empty size board).Tabulates (.empty size board) where
  ruled := Memory.ruled_empty size board
  frames := rfl
  used := rfl
  devices := rfl
  board := rfl
  past := rfl
  store := rfl
  events := rfl
  words _ := Std.ExtTreeMap.getD_empty
  blank _ _ := Std.ExtTreeMap.getD_empty

/-- A call has the same answer, and leaves the memory of the table that it leaves. -/
structure Matches {α : Type} (r : α × Tabled) (s : α × Memory) : Prop where
  answer : r.1 = s.1
  tabulates : r.2.Tabulates s.2

theorem Matches.split {α : Type} {r : α × Tabled} {s : α × Memory} (h : Matches r s) :
    ∃ a t m, r = (a, t) ∧ s = (a, m) ∧ t.Tabulates m :=
  ⟨r.1, r.2, s.2, rfl, by rw [h.answer], h.tabulates⟩

theorem getD_insert_table (table : Std.ExtTreeMap Nat PageWord) (page p : Nat) (e : PageWord) :
    (table.insert page e).getD p .unmapped = if p = page then e else table.getD p .unmapped := by
  rw [Std.ExtTreeMap.getD_insert]
  simp only [Std.LawfulEqCmp.compare_eq_iff_eq, eq_comm (a := p)]

section
variable {t : Tabled} {m : Memory} (h : t.Tabulates m)
include h

theorem Tabulates.entry_unmapped {p : Nat} (unmapped : m.page? p = none) : t.entry p = .unmapped := by
  rw [h.words, unmapped]
  rfl

theorem Tabulates.isUnmapped (p : Nat) : (t.entry p).isUnmapped = (m.page? p).isNone := by
  cases found : m.page? p with
  | none =>
    rw [h.entry_unmapped found]
    rfl
  | some e =>
    rw [h.words, found, PageWord.pack_isUnmapped (h.ruled.small found)]
    rfl

section
variable {p : Nat} {e : PageEntry} (found : m.page? p = some e)
include found

theorem Tabulates.position (offset : Nat) : (t.entry p).position offset = e.position offset := by
  unfold PageWord.position
  rw [h.words, found, PageWord.pack_frame (h.ruled.small found)]
  rfl

theorem Tabulates.has_readOnly : (t.entry p).has .readOnly = e.readOnly := by
  rw [h.words, found, PageWord.pack_has_readOnly (h.ruled.small found)]

theorem Tabulates.has_code : (t.entry p).has .code = m.isCodePage p := by
  rw [h.words, found, PageWord.pack_has_code (h.ruled.small found)]
  rfl

theorem Tabulates.has_flags : (t.entry p).has .flags = (e.readOnly || m.isCodePage p) := by
  rw [h.words, found, PageWord.pack_has_flags (h.ruled.small found)]
  rfl

end

theorem Tabulates.device? (paddr : Nat) : t.device? paddr = m.device? paddr := by
  unfold Tabled.device? Memory.device?
  rw [h.devices]

theorem Tabulates.isMapped (vaddr : Word) : t.isMapped vaddr = m.isMapped vaddr := by
  unfold Tabled.isMapped Memory.isMapped
  dsimp only
  rw [h.isUnmapped, h.device?]
  cases m.page? (pageOf (virtToPhys vaddr)) <;> rfl

theorem Tabulates.load (pos n : Nat) : t.load pos n = m.loadBytes pos n := by
  unfold Tabled.load Memory.loadBytes Memory.storeByte
  rw [h.store]

/-! ## Code -/

theorem Tabulates.pageVersion (p : Nat) : t.pageVersion p = m.pageVersion p := by
  unfold Tabled.pageVersion Memory.pageVersion
  cases found : m.page? p with
  | none =>
    rw [h.entry_unmapped found, h.blank p found]
    rfl
  | some e => rw [h.words, found, PageWord.pack_version (h.ruled.small found)]

theorem Tabulates.isCodePage (p : Nat) : t.isCodePage p = m.isCodePage p := by
  unfold Tabled.isCodePage
  rw [h.isUnmapped]
  cases found : m.page? p with
  | none =>
    unfold Memory.isCodePage
    rw [h.blank p found]
    rfl
  | some e =>
    rw [h.has_code found]
    rfl

section
variable {page : Nat} {e : PageEntry} (found : m.page? page = some e) {m' : Memory} {s : CodeState}
  (state : ∀ p, m'.codeState p = if p = page then s else m.codeState p)
include found state

/-- One page of a table gets the word of its new code state. -/
theorem Tabulates.words_insert {w : PageWord} (word : w = .pack (some e) s) (p : Nat) :
    (t.table.insert page w).getD p .unmapped = .pack (m.page? p) (m'.codeState p) := by
  rw [getD_insert_table, state, word]
  split
  · next own => rw [own, found]
  · exact h.words p

theorem Tabulates.blank_insert {p : Nat} (unmapped : m.page? p = none) : m'.codeState p = {} := by
  have other : p ≠ page := by
    rintro rfl
    rw [unmapped] at found
    cases found
  rw [state, if_neg other]
  exact h.blank p unmapped

end

theorem Tabulates.markCode (page : Nat) : Matches (t.markCode page) (m.markCode page) := by
  unfold Tabled.markCode
  dsimp only
  rw [h.isUnmapped]
  cases found : m.page? page with
  | none =>
    have same : m.markCode page = (none, m) := by
      unfold Memory.markCode
      rw [found]
    rw [same, h.entry_unmapped found]
    refine ⟨rfl, { h with words := fun p => ?_ }⟩
    show (t.table.insert page _).getD p .unmapped = _
    rw [getD_insert_table]
    split
    · next own =>
      rw [own, found]
      rfl
    · exact h.words p
  | some e =>
    have state := Memory.codeState_markCode found
    have word : t.entry page ||| .code = .pack (some e) { m.codeState page with marked := true } := by
      rw [h.words, found, PageWord.pack_or_code (h.ruled.small found)]
    unfold Memory.markCode at state ⊢
    rw [found] at state ⊢
    exact ⟨congrArg some (h.pageVersion page), { h with
      ruled := h.ruled.congr rfl rfl
      words := h.words_insert found state word
      blank := fun _ => h.blank_insert found state }⟩

theorem Tabulates.putBytes (pos : Nat) (data : List Byte) :
    Tabulates { t with store := EmotionEngine.putBytes t.store pos data } (m.storeBytes pos data) := by
  rw [m.storeBytes_eq_put, h.store]
  exact { h with ruled := h.ruled.congr rfl rfl, store := rfl, words := h.words, blank := h.blank }

theorem Tabulates.invalidateCode {page : Nat} {e : PageEntry} (found : m.page? page = some e)
    (marked : m.isCodePage page = true) : (t.invalidateCode page).Tabulates (m.invalidateCode page) := by
  have state := m.codeState_invalidateCode page
  have word : (t.entry page).written =
      .pack (some e) { version := (m.codeState page).version + 1, marked := false } := by
    rw [h.words, found, PageWord.pack_written (h.ruled.small found) _ marked]
  unfold Tabled.invalidateCode
  dsimp only
  rw [if_pos (by rw [h.has_code found, marked])]
  exact { h with
    ruled := h.ruled.congr rfl rfl
    events := congrArg (·.push (.codeWritten page)) h.events
    words := h.words_insert found state word
    blank := fun _ => h.blank_insert found state }

/-! ## Pages and devices -/

theorem Tabulates.writePage {vaddr : Word} {e : PageEntry} (found : m.page? (pageOf (virtToPhys vaddr)) = some e)
    (data : List Byte) :
    Matches (t.writePage (t.entry (pageOf (virtToPhys vaddr))) vaddr data) (m.writePage e vaddr data) := by
  have stored := h.putBytes (e.position (pageOffset (virtToPhys vaddr))) data
  unfold Tabled.writePage Memory.writePage
  dsimp only
  rw [h.has_readOnly found, h.has_code found, h.position found]
  split
  · exact ⟨rfl, h⟩
  · split
    · next marked =>
      refine ⟨rfl, stored.invalidateCode (by rw [Memory.storeBytes_page?]; exact found) ?_⟩
      unfold Memory.isCodePage Memory.codeState
      rw [Memory.storeBytes_code]
      exact marked
    · exact ⟨rfl, stored⟩

theorem Tabulates.deposit (d : Deposit) : (t.deposit d).Tabulates (m.deposit d) := by
  unfold Tabled.deposit Memory.deposit
  dsimp only
  rw [h.isUnmapped]
  cases found : m.page? d.page with
  | none => exact h
  | some e => exact (h.writePage found d.data).tabulates

theorem Tabulates.foldl_deposit (stores : List Deposit) :
    (stores.foldl Tabled.deposit t).Tabulates (stores.foldl Memory.deposit m) := by
  induction stores generalizing t m with
  | nil => exact h
  | cons d rest ih => exact ih (h.deposit d)

theorem Tabulates.byte? : t.byte? = m.byte? := by
  funext paddr
  unfold Tabled.byte? Memory.byte?
  dsimp only
  rw [h.isUnmapped]
  cases found : m.page? (pageOf paddr) with
  | none => rfl
  | some e =>
    rw [h.position found, h.store]
    rfl

theorem Tabulates.call (c : Call) : Matches (t.call c) (m.call c) := by
  have called : Tabulates { t with past := { call := c, byte? := t.byte? } :: t.past, events := t.events.push c.event }
      (m.called c) := by
    refine { h with
      ruled := h.ruled.congr rfl rfl
      past := ?_
      events := congrArg (·.push c.event) h.events
      words := h.words
      blank := h.blank }
    rw [h.byte?, h.past]
    rfl
  have reply : t.board.reply t.past { call := c, byte? := t.byte? } = m.reply c := by
    rw [h.board, h.past, h.byte?]
    rfl
  unfold Tabled.call Memory.call
  dsimp only
  rw [reply]
  exact ⟨rfl, called.foldl_deposit _⟩

theorem Tabulates.readDevice (vaddr : Word) (size : Nat) :
    Matches (t.readDevice vaddr size) (m.readDevice vaddr size) := by
  unfold Tabled.readDevice Memory.readDevice
  dsimp only
  rw [h.device?]
  cases m.device? (virtToPhys vaddr) with
  | none => exact ⟨rfl, h⟩
  | some r =>
    have called := h.call (.read r.device (virtToPhys vaddr - r.base) size)
    exact ⟨congrArg Except.ok called.answer, called.tabulates⟩

theorem Tabulates.writeDevice (vaddr : Word) (size : Nat) (v : Quad) :
    Matches (t.writeDevice vaddr size v) (m.writeDevice vaddr size v) := by
  unfold Tabled.writeDevice Memory.writeDevice
  dsimp only
  rw [h.device?]
  cases m.device? (virtToPhys vaddr) with
  | none => exact ⟨rfl, h⟩
  | some r => exact ⟨rfl, (h.call _).tabulates⟩

/-! ## Byte ranges -/

theorem Tabulates.readDeviceBytes {vaddr : Word} {n : Nat}
    (unmapped : m.page? (pageOf (virtToPhys vaddr)) = none)
    (inside : pageOffset (virtToPhys vaddr) + n ≤ pageSize) :
    Matches (t.readDeviceBytes vaddr n) (m.readBytes vaddr n) := by
  induction n generalizing t m vaddr with
  | zero => exact ⟨rfl, h⟩
  | succ n ih =>
    have kept := (m.pieces_readDevice vaddr 1).kept
    obtain ⟨a, t', m', eq, eq', later⟩ := (h.readDevice vaddr 1).split
    unfold Tabled.readDeviceBytes Memory.readBytes Memory.readByte
    dsimp only
    rw [unmapped, eq, eq']
    rw [eq'] at kept
    cases a with
    | error e => exact ⟨rfl, later⟩
    | ok v =>
      have rest : Matches (t'.readDeviceBytes (vaddr + 1) n) (m'.readBytes (vaddr + 1) n) := by
        cases n with
        | zero => exact ⟨rfl, later⟩
        | succ n =>
          obtain ⟨page, offset⟩ := Memory.next_inPage inside (Nat.succ_pos n)
          exact ih later (by rw [kept.page?, page]; exact unmapped) (by omega)
      obtain ⟨a, t'', m'', eq, eq', last⟩ := rest.split
      dsimp only
      rw [eq, eq']
      cases a <;> exact ⟨rfl, last⟩

theorem Tabulates.readChunk {vaddr : Word} {n : Nat} (inside : pageOffset (virtToPhys vaddr) + n ≤ pageSize) :
    Matches (t.readChunk vaddr n) (m.readBytes vaddr n) := by
  unfold Tabled.readChunk
  dsimp only
  rw [h.isUnmapped]
  cases found : m.page? (pageOf (virtToPhys vaddr)) with
  | none => exact h.readDeviceBytes found inside
  | some e =>
    rw [h.position found, h.load, Memory.readBytes_known (Memory.bytes?_inPage found inside)]
    exact ⟨rfl, h⟩

end

theorem readBytes_cut (m : Memory) (vaddr : Word) (k n : Nat) :
    m.readBytes vaddr (k + n) =
      match m.readBytes vaddr k with
      | (.error e, m) => (.error e, m)
      | (.ok bs, m) =>
        match m.readBytes (vaddr + BitVec.ofNat 32 k) n with
        | (.error e, m) => (.error e, m)
        | (.ok rest, m) => (.ok (bs ++ rest), m) := by
  induction k generalizing m vaddr with
  | zero =>
    rw [Nat.zero_add, show vaddr + BitVec.ofNat 32 0 = vaddr from BitVec.add_zero vaddr, Memory.readBytes]
    dsimp only
    obtain ⟨e | bs, m'⟩ := m.readBytes vaddr n <;> rfl
  | succ k ih =>
    rw [Nat.add_right_comm, Memory.readBytes, Memory.readBytes]
    obtain ⟨e | b, m'⟩ := m.readByte vaddr
    · rfl
    · dsimp only
      rw [ih, Flat.next_addr]
      obtain ⟨e | bs, m''⟩ := m'.readBytes (vaddr + 1) k
      · rfl
      · dsimp only
        obtain ⟨e | rest, last⟩ := m''.readBytes (vaddr + BitVec.ofNat 32 (k + 1)) n <;> rfl

section
variable {t : Tabled} {m : Memory} (h : t.Tabulates m)
include h

theorem Tabulates.readBytes (vaddr : Word) (n : Nat) : Matches (t.readBytes vaddr n) (m.readBytes vaddr n) := by
  induction n using Nat.strong_induction_on generalizing t m vaddr with
  | _ n ih =>
    rw [Tabled.readBytes]
    split
    · next none =>
      rw [none]
      exact ⟨rfl, h⟩
    · have room := Memory.roomInPage_pos vaddr
      have inside : pageOffset (virtToPhys vaddr) + min (Memory.roomInPage vaddr) n ≤ pageSize := by
        have := pageOffset_lt (virtToPhys vaddr)
        unfold Memory.roomInPage
        omega
      have cut := readBytes_cut m vaddr (min (Memory.roomInPage vaddr) n) (n - min (Memory.roomInPage vaddr) n)
      rw [Nat.add_sub_cancel' (Nat.min_le_right _ n)] at cut
      obtain ⟨a, t', m', eq, eq', later⟩ := (h.readChunk inside).split
      rw [cut]
      dsimp only
      rw [eq, eq']
      cases a with
      | error e => exact ⟨rfl, later⟩
      | ok bs =>
        have rest := ih (n - min (Memory.roomInPage vaddr) n) (by omega) later
          (vaddr + BitVec.ofNat 32 (min (Memory.roomInPage vaddr) n))
        obtain ⟨a, t'', m'', eq, eq', last⟩ := rest.split
        dsimp only
        rw [eq, eq']
        cases a <;> exact ⟨rfl, last⟩

theorem Tabulates.writeDeviceBytes (vaddr : Word) (data : List Byte) :
    Matches (t.writeDeviceBytes vaddr data) (m.writeDeviceBytes vaddr data) := by
  induction data generalizing t m vaddr with
  | nil => exact ⟨rfl, h⟩
  | cons b rest ih =>
    obtain ⟨a, t', m', eq, eq', later⟩ := (h.writeDevice vaddr 1 (b.setWidth 128)).split
    rw [Tabled.writeDeviceBytes, Memory.writeDeviceBytes, eq, eq']
    cases a with
    | error e => exact ⟨rfl, later⟩
    | ok effect => exact ih later (vaddr + 1)

theorem Tabulates.writeChunk (vaddr : Word) (data : List Byte) :
    Matches (t.writeChunk vaddr data) (m.writeInPage vaddr data) := by
  unfold Tabled.writeChunk Memory.writeInPage
  dsimp only
  rw [h.isUnmapped]
  cases found : m.page? (pageOf (virtToPhys vaddr)) with
  | none => exact h.writeDeviceBytes vaddr data
  | some e => exact h.writePage found data

theorem Tabulates.writeBytes (vaddr : Word) (data : List Byte) :
    Matches (t.writeBytes vaddr data) (m.writeBytes vaddr data) := by
  induction len : data.length using Nat.strong_induction_on generalizing t m vaddr data with
  | _ len' ih =>
    subst len
    rw [Tabled.writeBytes, Memory.writeBytes]
    split
    · exact ⟨rfl, h⟩
    · next nonempty =>
      have room := Memory.roomInPage_pos vaddr
      have some_byte : 0 < data.length := List.length_pos_iff.2 nonempty
      obtain ⟨a, t', m', eq, eq', later⟩ := (h.writeChunk vaddr (data.take (Memory.roomInPage vaddr))).split
      dsimp only
      rw [eq, eq']
      cases a with
      | error e => exact ⟨rfl, later⟩
      | ok effect =>
        have rest := ih (data.drop (Memory.roomInPage vaddr)).length (by rw [List.length_drop]; omega) later
          (vaddr + BitVec.ofNat 32 (Memory.roomInPage vaddr)) (data.drop (Memory.roomInPage vaddr)) rfl
        obtain ⟨a, t'', m'', eq, eq', last⟩ := rest.split
        dsimp only
        rw [eq, eq']
        cases a <;> exact ⟨rfl, last⟩

/-! ## Typed accesses -/

theorem Tabulates.read (w : Width) (vaddr : Word) : Matches (t.read w vaddr) (m.read w vaddr) := by
  unfold Tabled.read Tabled.readSlow
  dsimp only
  rw [h.isUnmapped]
  by_cases inside : Memory.inPage (virtToPhys vaddr) w.size = true
  · rw [inside]
    cases found : m.page? (pageOf (virtToPhys vaddr)) with
    | none =>
      obtain ⟨a, t', m', eq, eq', later⟩ := (h.readDevice vaddr w.size).split
      rw [Memory.read_unmapped inside found, eq, eq']
      cases a <;> exact ⟨rfl, later⟩
    | some e =>
      rw [Memory.read_mapped inside found, h.position found, h.load]
      exact ⟨rfl, h⟩
  · obtain ⟨a, t', m', eq, eq', later⟩ := (h.readBytes vaddr w.size).split
    unfold Memory.read
    dsimp only
    rw [Bool.eq_false_iff.2 inside, eq, eq']
    cases a <;> exact ⟨rfl, later⟩

/-- The one test of the fast path finds just the pages of RAM without code, and the slow path does the rest. -/
theorem Tabulates.write (w : Width) (vaddr : Word) (v : Quad) :
    Matches (t.write w vaddr v) (m.write w vaddr v) := by
  unfold Tabled.write Tabled.writeSlow
  dsimp only
  rw [h.isUnmapped]
  by_cases inside : Memory.inPage (virtToPhys vaddr) w.size = true
  · rw [inside]
    cases found : m.page? (pageOf (virtToPhys vaddr)) with
    | none =>
      rw [Memory.write_unmapped inside found, h.entry_unmapped found]
      exact h.writeDevice vaddr w.size _
    | some e =>
      have whole := h.writePage found (leBytes w.size v.toNat)
      rw [Memory.write_mapped inside found]
      rw [Tabled.writePage] at whole
      cases flags : (t.entry (pageOf (virtToPhys vaddr))).has .flags with
      | true => exact h.writePage found _
      | false =>
        have clear := flags
        rw [h.has_flags found, Bool.or_eq_false_iff] at clear
        rw [h.has_readOnly found, h.has_code found, clear.1, clear.2] at whole
        exact whole
  · unfold Memory.write
    dsimp only
    rw [Bool.eq_false_iff.2 inside]
    exact h.writeBytes vaddr _

theorem Tabulates.fetch (vaddr : Word) : t.fetch vaddr = m.fetch vaddr := by
  unfold Tabled.fetch Memory.fetch
  dsimp only
  rw [h.isUnmapped]
  cases found : m.page? (pageOf (virtToPhys vaddr)) with
  | none => rfl
  | some e =>
    rw [h.position found, h.load]
    by_cases aligned : vaddr.toNat % 4 = 0 <;> simp [aligned]

end

/-! ## Mapping -/

theorem getD_fill (table : Std.ExtTreeMap Nat PageWord) (first frame : Nat) (flags : PageWord) (count p : Nat) :
    (fill table first frame flags count).getD p .unmapped =
      if first ≤ p ∧ p < first + count then .ofFrame (frame + (p - first)) flags
      else table.getD p .unmapped := by
  induction count generalizing table first frame with
  | zero => rw [fill, if_neg (by omega)]
  | succ count ih =>
    rw [fill, ih, getD_insert_table]
    by_cases own : p = first
    · rw [if_neg (by omega), if_pos own, if_pos (by omega), own, Nat.sub_self, Nat.add_zero]
    · by_cases later : first + 1 ≤ p ∧ p < first + 1 + count
      · rw [if_pos later, if_pos (by omega), show frame + 1 + (p - (first + 1)) = frame + (p - first) by omega]
      · rw [if_neg later, if_neg own, if_neg (by omega)]

/-- A mapping is refused in both for the same reason, or made in both. -/
def Mapped : Except MemError Tabled → Except MemError Memory → Prop
  | .error e, .error e' => e = e'
  | .ok t, .ok m => t.Tabulates m
  | _, _ => False

section
variable {t : Tabled} {m : Memory} (h : t.Tabulates m)
include h

theorem Tabulates.meets {first count : Nat} (nonempty : 0 < count) :
    t.meets first count = m.regions.any (·.meets first count) := by
  rw [Bool.eq_iff_iff, h.ruled.meets_iff nonempty]
  unfold Tabled.meets
  simp only [List.any_eq_true, List.mem_range, h.isUnmapped, Bool.not_eq_true', Option.isNone_eq_false_iff]

theorem Tabulates.checkRegion (base size : Nat) : t.checkRegion base size = m.checkRegion base size := by
  unfold Tabled.checkRegion Memory.checkRegion
  by_cases bad : size = 0 ∨ base % pageSize ≠ 0 ∨ size % pageSize ≠ 0 ∨ physSpace < base + size
  · rw [if_pos bad, if_pos bad]
  · have whole : 0 < size / pageSize := by
      rw [show pageSize = 4096 from rfl] at *
      omega
    rw [if_neg bad, if_neg bad, h.meets whole, h.devices]

/-- Either table gets the same frames for the same pages. -/
theorem Tabulates.mapFrames (base size : Nat) (readOnly : Bool) :
    (∃ e, t.mapFrames base size (if readOnly then .readOnly else 0) = .error e ∧
      m.mapFrames base size readOnly = .error e) ∨
    ∃ t' m', t.mapFrames base size (if readOnly then .readOnly else 0) = .ok (m.used, t') ∧
      m.mapFrames base size readOnly = .ok (m.used, m') ∧ t'.Tabulates m' := by
  have sound (frame : Nat) (m' : Memory) (mapped : m.mapFrames base size readOnly = .ok (frame, m')) : m'.Sound :=
    Memory.mapFrames_sound h.ruled.sound mapped
  unfold Memory.mapFrames at sound
  unfold Tabled.mapFrames Memory.mapFrames
  rw [h.checkRegion, h.frames, h.used]
  cases check : m.checkRegion base size with
  | error e => exact .inl ⟨e, rfl, rfl⟩
  | ok u =>
    rw [check] at sound
    dsimp only at sound ⊢
    by_cases full : m.frames < m.used + size / pageSize
    · rw [if_pos full, if_pos full]
      exact .inl ⟨_, rfl, rfl⟩
    · rw [if_neg full] at sound
      rw [if_neg full, if_neg full]
      obtain ⟨good, unmet⟩ := Memory.checkRegion_ok check
      have whole : 0 < size / pageSize := by
        rw [show pageSize = 4096 from rfl] at *
        omega
      have inside : base / pageSize + size / pageSize ≤ Memory.numPages := by
        rw [show Memory.numPages = 131072 from rfl]
        rw [show pageSize = 4096 from rfl, show physSpace = 536870912 from rfl] at *
        omega
      have free (i : Nat) (short : i < size / pageSize) : m.page? (base / pageSize + i) = none := by
        by_contra taken
        obtain ⟨r, mem, covers⟩ := Memory.page?_isSome.1 (Option.isSome_iff_ne_none.2 taken)
        exact unmet r mem (Region.meets_of_covers covers (by omega) (by omega))
      have ruled := h.ruled.map whole inside free readOnly (sound _ _ rfl)
      refine .inr ⟨_, _, rfl, rfl, { h with
        ruled
        frames := rfl
        used := rfl
        words := fun p => ?_
        blank := fun p unmapped => ?_ }⟩
      · show (fill t.table _ _ _ _).getD p .unmapped = _
        rw [getD_fill, Memory.page?_cons]
        have same : (base / pageSize ≤ p ∧ p < base / pageSize + size / pageSize) ↔
            Region.covers { first := base / pageSize, count := size / pageSize, frame := m.used, readOnly } p =
              true := by
          simp only [Region.covers, Bool.and_eq_true, decide_eq_true_eq]
        by_cases new : base / pageSize ≤ p ∧ p < base / pageSize + size / pageSize
        · have first := free (p - base / pageSize) (by omega)
          rw [Nat.add_sub_cancel' new.1] at first
          have found := (Memory.page?_cons m _ (m.used + size / pageSize) p).trans (if_pos (same.1 new))
          rw [if_pos new, if_pos (same.1 new)]
          exact (PageWord.pack_ofFrame (ruled.small found)).trans
            (congrArg (PageWord.pack _) (h.blank p first).symm)
        · rw [if_neg new, if_neg (mt same.2 new)]
          exact h.words p
      · rw [Memory.page?_cons] at unmapped
        split at unmapped
        · cases unmapped
        · exact h.blank p unmapped

theorem Tabulates.mapRam (base size : Nat) : Mapped (t.mapRam base size) (m.mapRam base size) := by
  unfold Tabled.mapRam Memory.mapRam
  obtain ⟨e, refused, refused'⟩ | ⟨t', m', made, made', later⟩ := h.mapFrames base size false
  · rw [refused', show t.mapFrames base size 0 = _ from refused]
    exact rfl
  · rw [made', show t.mapFrames base size 0 = _ from made]
    exact later

theorem Tabulates.mapRom (base : Nat) (image : List Byte) :
    Mapped (t.mapRom base image) (m.mapRom base image) := by
  unfold Tabled.mapRom Memory.mapRom
  obtain ⟨e, refused, refused'⟩ | ⟨t', m', made, made', later⟩ := h.mapFrames base (Memory.romSize image) true
  · rw [refused', show t.mapFrames base (Memory.romSize image) .readOnly = _ from refused]
    exact rfl
  · rw [made', show t.mapFrames base (Memory.romSize image) .readOnly = _ from made]
    exact later.putBytes _ _

theorem Tabulates.mapDevice (base size : Nat) (device : Device) :
    Mapped (t.mapDevice base size device) (m.mapDevice base size device) := by
  unfold Tabled.mapDevice Memory.mapDevice
  by_cases bad : size = 0 ∨ physSpace < base + size
  · rw [if_pos bad, if_pos bad]
    exact rfl
  · have whole : 0 < (base + size - 1) / pageSize + 1 - base / pageSize := by
      rw [show pageSize = 4096 from rfl]
      omega
    rw [if_neg bad, if_neg bad]
    dsimp only
    rw [h.meets whole, h.devices]
    split
    · exact rfl
    · exact { h with ruled := h.ruled.congr rfl rfl, devices := rfl, words := h.words, blank := h.blank }

theorem Tabulates.settle {r : Except MemError Tabled} {s : Except MemError Memory} (mapped : Mapped r s) :
    Matches (Memory.settle t r) (Memory.settle m s) := by
  cases r with
  | error e =>
    cases s with
    | error e' => exact ⟨congrArg Except.error mapped, h⟩
    | ok m' => exact mapped.elim
  | ok t' =>
    cases s with
    | error e' => exact mapped.elim
    | ok m' => exact ⟨rfl, mapped⟩

end

/-! ## Calls -/

/-- A call on a table, answered as `Memory.apply` answers it. -/
def apply (t : Tabled) : Memory.Op → Except MemError (List Byte) × Tabled
  | .mapRam base size => Memory.settle t (t.mapRam base size)
  | .mapRom base image => Memory.settle t (t.mapRom base image)
  | .mapDevice base size device => Memory.settle t (t.mapDevice base size device)
  | .write w vaddr v => ((t.write w vaddr v).1.map fun _ => [], (t.write w vaddr v).2)
  | .writeBytes vaddr data => ((t.writeBytes vaddr data).1.map fun _ => [], (t.writeBytes vaddr data).2)
  | .markCode page => (.ok [], (t.markCode page).2)
  | .read w vaddr => ((t.read w vaddr).1.map fun v => leBytes w.size v.toNat, (t.read w vaddr).2)
  | .readBytes vaddr n => t.readBytes vaddr n

theorem Matches.map {α β : Type} {r : Except MemError α × Tabled} {s : Except MemError α × Memory}
    (h : Matches r s) (f : α → β) : Matches (r.1.map f, r.2) (s.1.map f, s.2) :=
  ⟨congrArg (Except.map f) h.answer, h.tabulates⟩

theorem Tabulates.apply {t : Tabled} {m : Memory} (h : t.Tabulates m) (op : Memory.Op) :
    Matches (t.apply op) (m.apply op) := by
  cases op with
  | mapRam base size => exact h.settle (h.mapRam base size)
  | mapRom base image => exact h.settle (h.mapRom base image)
  | mapDevice base size device => exact h.settle (h.mapDevice base size device)
  | write w vaddr v => exact (h.write w vaddr v).map _
  | writeBytes vaddr data => exact (h.writeBytes vaddr data).map _
  | markCode page => exact ⟨rfl, (h.markCode page).tabulates⟩
  | read w vaddr => exact (h.read w vaddr).map _
  | readBytes vaddr n => exact h.readBytes vaddr n

theorem Tabulates.session {t : Tabled} {m : Memory} (h : t.Tabulates m) (ops : List Memory.Op) :
    Matches (Memory.session Tabled.apply t ops) (Memory.session Memory.apply m ops) := by
  induction ops generalizing t m with
  | nil => exact ⟨rfl, h⟩
  | cons op rest ih =>
    have first := h.apply op
    have later := ih first.tabulates
    refine ⟨?_, later.tabulates⟩
    simp only [Memory.session, first.answer, later.answer]

/-- Whatever is mapped, written, marked and read, a page table of packed words answers as the memory by regions
does, and leaves the table of the memory that is left. -/
theorem session_refines (size : Nat) (board : Board) (ops : List Memory.Op) :
    let tabled := Memory.session Tabled.apply (empty size board) ops
    let paged := Memory.session Memory.apply (.empty size board) ops
    tabled.1 = paged.1 ∧ tabled.2.Tabulates paged.2 :=
  have whole := (tabulates_empty size board).session ops
  ⟨whole.answer, whole.tabulates⟩

end Tabled

end EmotionEngine
