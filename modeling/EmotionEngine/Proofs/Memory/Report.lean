import Mathlib.Order.Bounds.Basic
import EmotionEngine.Memory.Observe
import EmotionEngine.Proofs.Memory.Refine

/-!
What a write reports. A call stores its bytes in order, up to the first that is refused, and may end on
another page than it began. The pages of code among those that it stored a byte on (`Memory.codeHit`) are
what it has to tell of. Observers may do what they like but change memory, and devices that are called may store to
all pages but those that are marked.

1. With observers or without, a write does the same (`Observed.writeBytes_mirrors`, `Observed.write_mirrors`).
2. A piece of a call inside one page hits that page or nothing (`Observed.writeInPage_bytewise`).
3. A page that was told of is no page of code any more, so two pieces never tell of the same page, and the
   pages that a call hits are those of its pieces (`Memory.codeHit_cut`).
4. Who is called is who has registered and was not dropped since (`Observer.callees_enrol`).

Main statement: `Observed.writes_reported`. Each page that was hit has lost its mark and gone to the next
version, each observer alive was called once for it, with its bytes stored, and the effect of a call that
succeeds spans exactly these pages; no other page is touched or told of.
-/

namespace EmotionEngine

/-! ## Where the bytes of a call go -/

namespace Memory

/-- Of `n` bytes written from an address on, one is stored on the page: none up to it is refused, and the
page is RAM. -/
def Receives (m : Memory) (vaddr : Word) (n page : Nat) : Prop :=
  ∃ k < n, (∀ j ≤ k, m.flat.refusal (vaddr + BitVec.ofNat 32 j) = none) ∧
    m.page? page ≠ none ∧ pageOf (virtToPhys (vaddr + BitVec.ofNat 32 k)) = page

/-- The pages of code that are hit. -/
def codeHit (m : Memory) (vaddr : Word) (n : Nat) : Set Nat :=
  {p | m.isCodePage p = true ∧ m.Receives vaddr n p}

section
variable (vaddr : Word) (k : Nat)

theorem virtToPhys_add : virtToPhys (vaddr + BitVec.ofNat 32 k) = (virtToPhys vaddr + k) % physSpace := by
  unfold virtToPhys
  rw [BitVec.toNat_add, BitVec.toNat_ofNat, show physSpace = 536870912 from rfl]
  omega

theorem addr_add (n : Nat) :
    vaddr + BitVec.ofNat 32 n + BitVec.ofNat 32 k = vaddr + BitVec.ofNat 32 (n + k) := by
  rw [BitVec.ofNat_add, BitVec.add_assoc]

theorem add_inPage (inside : pageOffset (virtToPhys vaddr) + k < pageSize) :
    pageOf (virtToPhys (vaddr + BitVec.ofNat 32 k)) = pageOf (virtToPhys vaddr) ∧
      pageOffset (virtToPhys (vaddr + BitVec.ofNat 32 k)) = pageOffset (virtToPhys vaddr) + k := by
  have bound : virtToPhys vaddr < physSpace := Nat.mod_lt _ (by decide)
  rw [virtToPhys_add]
  unfold pageOf pageOffset at *
  rw [show pageSize = 4096 from rfl, show physSpace = 536870912 from rfl] at *
  omega

/-- The bytes after the end of the page are on other pages, all the way round physical space. -/
theorem add_beyond (beyond : pageSize ≤ pageOffset (virtToPhys vaddr) + k)
    (round : pageOffset (virtToPhys vaddr) + k < physSpace) :
    pageOf (virtToPhys (vaddr + BitVec.ofNat 32 k)) ≠ pageOf (virtToPhys vaddr) := by
  have bound : virtToPhys vaddr < physSpace := Nat.mod_lt _ (by decide)
  rw [virtToPhys_add]
  unfold pageOf pageOffset at *
  rw [show pageSize = 4096 from rfl, show physSpace = 536870912 from rfl] at *
  omega

end

section
variable {m m' : Memory} (regions : m'.regions = m.regions) (devices : m'.devices = m.devices)
include regions

include devices

/-- Which bytes are refused depends on the map alone. -/
theorem refusal_congr (vaddr : Word) : m'.flat.refusal vaddr = m.flat.refusal vaddr := by
  unfold Flat.refusal flat device?
  simp only [page?_congr regions, devices]
  cases m.page? (pageOf (virtToPhys vaddr)) <;> rfl

/-- A call in two pieces, where the first has taken the marks off the pages that it hit: the pages hit by the
call are those of its pieces. -/
theorem codeHit_cut {vaddr : Word} {n len : Nat}
    (accepted : ∀ k < min n len, m.flat.refusal (vaddr + BitVec.ofNat 32 k) = none)
    (marked : ∀ p, m'.isCodePage p = true ↔ m.isCodePage p = true ∧ p ∉ m.codeHit vaddr (min n len)) :
    m.codeHit vaddr len =
      m.codeHit vaddr (min n len) ∪ m'.codeHit (vaddr + BitVec.ofNat 32 n) (len - n) := by
  ext p
  constructor
  · rintro ⟨code, k, short, taken, mapped, page⟩
    by_cases first : p ∈ m.codeHit vaddr (min n len)
    · exact .inl first
    · right
      have later : n ≤ k := by
        by_contra early
        exact first ⟨code, k, by omega, taken, mapped, page⟩
      refine ⟨(marked p).2 ⟨code, first⟩, k - n, by omega, fun j hj => ?_, ?_, ?_⟩
      · rw [refusal_congr regions devices, addr_add]
        exact taken (n + j) (by omega)
      · rwa [page?_congr regions]
      · rwa [addr_add, Nat.add_sub_cancel' later]
  · rintro (⟨code, k, short, taken, mapped, page⟩ | ⟨code, k, short, taken, mapped, page⟩)
    · exact ⟨code, k, by omega, taken, mapped, page⟩
    · rw [page?_congr regions] at mapped
      rw [addr_add] at page
      refine ⟨((marked p).1 code).1, n + k, by omega, fun j hj => ?_, mapped, page⟩
      by_cases early : j < n
      · exact accepted j (by omega)
      · have := taken (j - n) (by omega)
        rwa [refusal_congr regions devices, addr_add, Nat.add_sub_cancel' (by omega)] at this

end

theorem codeHit_refused {m : Memory} {vaddr : Word} {n len k : Nat} (early : k < n) (within : n ≤ len)
    (refused : m.flat.refusal (vaddr + BitVec.ofNat 32 k) ≠ none) :
    m.codeHit vaddr len = m.codeHit vaddr n := by
  ext p
  constructor
  · rintro ⟨code, i, short, taken, mapped, page⟩
    have before : i < k := by
      by_contra after
      exact refused (taken k (by omega))
    exact ⟨code, i, by omega, taken, mapped, page⟩
  · rintro ⟨code, i, short, taken, mapped, page⟩
    exact ⟨code, i, by omega, taken, mapped, page⟩

end Memory

/-! ## Effects -/

namespace WriteEffect

/-- An effect tells of the least and the greatest page that was hit, if there is any. -/
def Tells (hit : Set Nat) : WriteEffect → Prop
  | plain => hit = ∅
  | codeInvalidated first last => IsLeast hit first ∧ IsGreatest hit last

theorem Tells.merge {hit hit' : Set Nat} {e e' : WriteEffect} (h : e.Tells hit) (h' : e'.Tells hit') :
    (e.merge e').Tells (hit ∪ hit') := by
  cases e with
  | plain =>
    obtain rfl : hit = ∅ := h
    rw [Set.empty_union]
    exact h'
  | codeInvalidated first last =>
    cases e' with
    | plain =>
      obtain rfl : hit' = ∅ := h'
      rw [Set.union_empty]
      exact h
    | codeInvalidated first' last' => exact ⟨h.1.union h'.1, h.2.union h'.2⟩

end WriteEffect

/-! ## Notices -/

namespace Notice

theorem about_append (notices new : List Notice) (page : Nat) :
    about (notices ++ new) page = about notices page ++ about new page := by
  simp [about]

theorem about_calls (names : List String) (page p : Nat) (seen : Memory) :
    about (names.map fun observer => { observer, page, seen }) p = if page = p then names else [] := by
  unfold about
  rw [List.filter_map, List.map_map]
  split
  · next same => simp [same, Function.comp_def]
  · next other => simp [other, Function.comp_def]

/-- When the observer is called, the bytes of the call that go to the page are stored. -/
def Stored (vaddr : Word) (data : List Byte) (n : Notice) : Prop :=
  ∀ (k : Nat) (b : Byte), data[k]? = some b → pageOf (virtToPhys (vaddr + BitVec.ofNat 32 k)) = n.page →
    (n.seen.readByte (vaddr + BitVec.ofNat 32 k)).1 = .ok b

/-- A call that does not go all the way round physical space. -/
def Fits (vaddr : Word) (data : List Byte) : Prop := pageOffset (virtToPhys vaddr) + data.length ≤ physSpace

end Notice

namespace Observed

def callees (o : Observed) : List String := Observer.callees o.observers

/-- What a write that hits some pages of code does to what is known of code, and whom it tells of it. -/
structure Reports (o : Observed) (hit : Set Nat) (stored : Notice → Prop) (o' : Observed) : Prop where
  observers : o'.observers = o.observers
  regions : o'.mem.regions = o.mem.regions
  devices : o'.mem.devices = o.mem.devices
  cleared : ∀ p ∈ hit, o'.mem.codeState p = { version := o.mem.pageVersion p + 1, marked := false }
  spared : ∀ p ∉ hit, o'.mem.codeState p = o.mem.codeState p
  notices : ∃ new, o'.notices = o.notices ++ new ∧ (∀ p ∈ hit, Notice.about new p = o.callees) ∧
    (∀ p ∉ hit, Notice.about new p = []) ∧ ∀ n ∈ new, n.page ∈ hit ∧ stored n
  events : ∃ told, o'.mem.events.toList = o.mem.events.toList ++ told ∧
    (∀ p ∈ hit, told.count (.codeWritten p) = 1) ∧ ∀ p ∉ hit, told.count (.codeWritten p) = 0

namespace Reports

variable {o o' o'' : Observed} {hit hit' : Set Nat} {stored stored' : Notice → Prop}

theorem callees (h : Reports o hit stored o') : o'.callees = o.callees := by
  unfold Observed.callees
  rw [h.observers]

theorem imp (h : Reports o hit stored o') (weaker : ∀ n, n.page ∈ hit → stored n → stored' n) :
    Reports o hit stored' o' := by
  obtain ⟨new, eq, once, others, each⟩ := h.notices
  refine { h with notices := ⟨new, eq, once, others, fun n called => ?_⟩ }
  obtain ⟨page, told⟩ := each n called
  exact ⟨page, weaker n page told⟩

/-- Nothing is hit: only the store changes, and devices are called. -/
theorem quiet {mem : Memory} (told : List Event) (regions : mem.regions = o.mem.regions)
    (devices : mem.devices = o.mem.devices) (code : mem.code = o.mem.code)
    (events : mem.events.toList = o.mem.events.toList ++ told) (silent : ∀ p, Event.codeWritten p ∉ told) :
    Reports o ∅ stored { o with mem } where
  observers := rfl
  regions := regions
  devices := devices
  cleared := by simp
  spared p _ := by simp only [Memory.codeState, code]
  notices := ⟨[], by simp, by simp, by simp [Notice.about], by simp⟩
  events := ⟨told, events, by simp, fun p _ => List.count_eq_zero.2 (silent p)⟩

theorem refl (o : Observed) : Reports o ∅ stored o := quiet [] rfl rfl rfl (by simp) (by simp)

theorem marked_iff (h : Reports o hit stored o') (p : Nat) :
    o'.mem.isCodePage p = true ↔ o.mem.isCodePage p = true ∧ p ∉ hit := by
  unfold Memory.isCodePage
  by_cases first : p ∈ hit
  · simp [h.cleared p first, first]
  · simp [h.spared p first, first]

/-- Two pieces of a call that hit different pages. -/
theorem trans (h : Reports o hit stored o') (h' : Reports o' hit' stored o'') (apart : ∀ p ∈ hit, p ∉ hit') :
    Reports o (hit ∪ hit') stored o'' where
  observers := h'.observers.trans h.observers
  regions := h'.regions.trans h.regions
  devices := h'.devices.trans h.devices
  cleared := by
    rintro p (first | later)
    · rw [h'.spared p (apart p first), h.cleared p first]
    · rw [h'.cleared p later, Memory.pageVersion, h.spared p fun first => apart p first later]
      rfl
  spared p neither := by
    rw [h'.spared p fun later => neither (.inr later), h.spared p fun first => neither (.inl first)]
  notices := by
    obtain ⟨new, eq, once, others, each⟩ := h.notices
    obtain ⟨new', eq', once', others', each'⟩ := h'.notices
    refine ⟨new ++ new', by rw [eq', eq, List.append_assoc], ?_, ?_, ?_⟩
    · rintro p (first | later)
      · rw [Notice.about_append, once p first, others' p (apart p first), List.append_nil]
      · rw [Notice.about_append, others p fun first => apart p first later, once' p later, h.callees,
          List.nil_append]
    · intro p neither
      rw [Notice.about_append, others p fun first => neither (.inl first),
        others' p fun later => neither (.inr later), List.append_nil]
    · intro n hn
      obtain first | later := List.mem_append.1 hn
      · exact ⟨.inl (each n first).1, (each n first).2⟩
      · exact ⟨.inr (each' n later).1, (each' n later).2⟩
  events := by
    obtain ⟨told, eq, once, others⟩ := h.events
    obtain ⟨told', eq', once', others'⟩ := h'.events
    refine ⟨told ++ told', by rw [eq', eq, List.append_assoc], ?_, ?_⟩
    · rintro p (first | later)
      · rw [List.count_append, once p first, others' p (apart p first)]
      · rw [List.count_append, others p fun first => apart p first later, once' p later]
    · intro p neither
      rw [List.count_append, others p fun first => neither (.inl first),
        others' p fun later => neither (.inr later)]

end Reports

/-! ## Observers that leave memory alone -/

def Passive (o : Observed) : Prop := ∀ r ∈ o.observers, ∀ notices page m, r.run notices page m = m

theorem foldl_tell (page : Nat) (observers : List Observer)
    (passive : ∀ r ∈ observers, ∀ notices page m, r.run notices page m = m) (o : Observed) :
    observers.foldl (tell page) o =
      { o with
        notices := o.notices ++ ((observers.filter (·.alive)).map (·.name)).map
          fun observer => { observer, page, seen := o.mem } } := by
  induction observers generalizing o with
  | nil => simp
  | cons r rest ih =>
    rw [List.foldl_cons, ih fun r' later => passive r' (List.mem_cons_of_mem _ later)]
    unfold tell
    cases alive : r.alive with
    | false => simp [alive]
    | true => simp [alive, passive r List.mem_cons_self]

theorem invalidateCode_eq {o : Observed} (passive : o.Passive) (page : Nat) :
    o.invalidateCode page =
      { o with
        mem := o.mem.invalidateCode page
        notices := o.notices ++ o.callees.map
          fun observer => { observer, page, seen := o.mem.invalidateCode page } } :=
  foldl_tell page o.observers passive { o with mem := o.mem.invalidateCode page }

/-- With observers and without, the same is answered and the same memory left. -/
structure Mirrors {α : Type} (o : Observed) (r : α × Observed) (s : α × Memory) : Prop where
  same : (r.1, r.2.mem) = s
  observers : r.2.observers = o.observers

theorem Mirrors.passive {α : Type} {o : Observed} {r : α × Observed} {s : α × Memory} (h : Mirrors o r s)
    (passive : o.Passive) : r.2.Passive := by
  unfold Passive
  rw [h.observers]
  exact passive

section
variable {o : Observed} (passive : o.Passive)
include passive

theorem writePage_mirrors (e : PageEntry) (vaddr : Word) (data : List Byte) :
    Mirrors o (o.writePage e vaddr data) (o.mem.writePage e vaddr data) := by
  unfold writePage Memory.writePage
  dsimp only
  split
  · exact ⟨rfl, rfl⟩
  · split
    · rw [invalidateCode_eq (by exact passive)]
      exact ⟨rfl, rfl⟩
    · exact ⟨rfl, rfl⟩

theorem foldl_deposit_mirrors (stores : List Deposit) :
    (stores.foldl deposit o).mem = stores.foldl Memory.deposit o.mem ∧
      (stores.foldl deposit o).observers = o.observers := by
  induction stores generalizing o with
  | nil => exact ⟨rfl, rfl⟩
  | cons d rest ih =>
    have first : (o.deposit d).mem = o.mem.deposit d ∧ (o.deposit d).observers = o.observers := by
      unfold deposit Memory.deposit
      cases o.mem.page? d.page with
      | none => exact ⟨rfl, rfl⟩
      | some e =>
        have mirrors := o.writePage_mirrors passive e d.vaddr d.data
        exact ⟨congrArg Prod.snd mirrors.same, mirrors.observers⟩
    have later := ih (o := o.deposit d) (by
      unfold Passive
      rw [first.2]
      exact passive)
    rw [List.foldl_cons, List.foldl_cons, ← first.1]
    exact ⟨later.1, later.2.trans first.2⟩

theorem call_mirrors (c : Call) : Mirrors o (o.call c) (o.mem.call c) := by
  obtain ⟨mem, observers⟩ :=
    foldl_deposit_mirrors (o := { o with mem := o.mem.called c }) passive (o.mem.reply c).stores
  exact ⟨congrArg (Prod.mk _) mem, observers⟩

theorem writeDevice_mirrors (vaddr : Word) (size : Nat) (v : Quad) :
    Mirrors o (o.writeDevice vaddr size v) (o.mem.writeDevice vaddr size v) := by
  unfold writeDevice Memory.writeDevice
  dsimp only
  cases o.mem.device? (virtToPhys vaddr) with
  | none => exact ⟨rfl, rfl⟩
  | some r =>
    have called := o.call_mirrors passive (.write r.device (virtToPhys vaddr - r.base) size v)
    exact ⟨congrArg (fun s => (Except.ok WriteEffect.plain, s.2)) called.same, called.observers⟩

theorem writeDeviceBytes_mirrors (vaddr : Word) (data : List Byte) :
    Mirrors o (o.writeDeviceBytes vaddr data) (o.mem.writeDeviceBytes vaddr data) := by
  induction data generalizing o vaddr with
  | nil => exact ⟨rfl, rfl⟩
  | cons b rest ih =>
    have first := o.writeDevice_mirrors passive vaddr 1 (b.setWidth 128)
    rw [writeDeviceBytes, Memory.writeDeviceBytes, ← first.same]
    have passive' := first.passive passive
    have observers := first.observers
    generalize o.writeDevice vaddr 1 (b.setWidth 128) = r at passive' observers ⊢
    obtain ⟨e | effect, o'⟩ := r
    · exact ⟨rfl, observers⟩
    · have later := ih passive' (vaddr + 1)
      exact ⟨later.same, later.observers.trans observers⟩

theorem writeInPage_mirrors (vaddr : Word) (data : List Byte) :
    Mirrors o (o.writeInPage vaddr data) (o.mem.writeInPage vaddr data) := by
  unfold writeInPage Memory.writeInPage
  cases o.mem.page? (pageOf (virtToPhys vaddr)) with
  | none => exact o.writeDeviceBytes_mirrors passive vaddr data
  | some e => exact o.writePage_mirrors passive e vaddr data

theorem writeBytes_mirrors (vaddr : Word) (data : List Byte) :
    Mirrors o (o.writeBytes vaddr data) (o.mem.writeBytes vaddr data) := by
  fun_induction writeBytes o vaddr data with
  | case1 o vaddr =>
    rw [Memory.writeBytes, dif_pos rfl]
    exact ⟨rfl, rfl⟩
  | case2 o vaddr data nonempty n e o' first =>
    have mirrors := o.writeInPage_mirrors passive vaddr (data.take n)
    rw [Memory.writeBytes, dif_neg nonempty]
    dsimp only
    rw [← mirrors.same, first]
    rw [first] at mirrors
    exact ⟨rfl, mirrors.observers⟩
  | case3 o vaddr data nonempty n effect o' first r o'' rest ih
  | case4 o vaddr data nonempty n effect o' first r o'' rest ih =>
    have mirrors := o.writeInPage_mirrors passive vaddr (data.take n)
    rw [Memory.writeBytes, dif_neg nonempty]
    dsimp only
    rw [← mirrors.same, first]
    rw [first] at mirrors
    have later := ih (mirrors.passive passive)
    rw [rest] at later
    dsimp only
    rw [← later.same]
    exact ⟨rfl, later.observers.trans mirrors.observers⟩

theorem write_mirrors (w : Width) (vaddr : Word) (v : Quad) :
    Mirrors o (o.write w vaddr v) (o.mem.write w vaddr v) := by
  unfold write Memory.write
  dsimp only
  split
  · cases o.mem.page? (pageOf (virtToPhys vaddr)) with
    | none => exact o.writeDevice_mirrors passive vaddr w.size _
    | some e => exact o.writeInPage_mirrors passive vaddr _
  · exact o.writeBytes_mirrors passive vaddr _

end

end Observed

/-! ## Pieces inside a page -/

namespace Memory

theorem readByte_mapped {m : Memory} {vaddr : Word} {e : PageEntry}
    (found : m.page? (pageOf (virtToPhys vaddr)) = some e) :
    (m.readByte vaddr).1 = .ok (m.storeByte (e.position (pageOffset (virtToPhys vaddr)))) := by
  unfold readByte
  dsimp only
  rw [found]

theorem writeDeviceBytes_result (m : Memory) (vaddr : Word) (data : List Byte) :
    ((m.writeDeviceBytes vaddr data).1 = .ok .plain ∧
        ∀ k < data.length, m.device? (virtToPhys (vaddr + BitVec.ofNat 32 k)) ≠ none) ∨
      (∃ e, (m.writeDeviceBytes vaddr data).1 = .error e) ∧
        ∃ k < data.length, m.device? (virtToPhys (vaddr + BitVec.ofNat 32 k)) = none := by
  induction data generalizing m vaddr with
  | nil => exact .inl ⟨rfl, by simp⟩
  | cons b rest ih =>
    unfold writeDeviceBytes writeDevice
    dsimp only
    cases device : m.device? (virtToPhys vaddr) with
    | none => exact .inr ⟨⟨_, rfl⟩, 0, by simp, by simpa using device⟩
    | some r =>
      dsimp only
      have kept := (m.pieces_call (.write r.device (virtToPhys vaddr - r.base) 1 (b.setWidth 128))).kept
      generalize (m.call _).2 = m' at kept ⊢
      obtain ⟨ok, all⟩ | ⟨failed, k, short, free⟩ := ih m' (vaddr + 1)
      · refine .inl ⟨ok, ?_⟩
        rintro (_ | k) short
        · simp [device]
        · rw [← Flat.next_addr, ← kept.device?]
          exact all k (by simpa using short)
      · refine .inr ⟨failed, k + 1, by simpa using short, ?_⟩
        rw [← Flat.next_addr, ← kept.device?]
        exact free

section
variable {m : Memory} {vaddr : Word} {n : Nat} (inside : pageOffset (virtToPhys vaddr) + n ≤ pageSize)
include inside

theorem page_of_codeHit {p : Nat} (h : p ∈ m.codeHit vaddr n) : p = pageOf (virtToPhys vaddr) := by
  obtain ⟨-, k, short, -, -, page⟩ := h
  rw [← page, (add_inPage vaddr k (by omega)).1]

theorem codeHit_unmapped (unmapped : m.page? (pageOf (virtToPhys vaddr)) = none) :
    m.codeHit vaddr n = ∅ := by
  refine Set.eq_empty_of_forall_notMem fun p h => ?_
  obtain rfl := page_of_codeHit inside h
  obtain ⟨-, -, -, -, mapped, -⟩ := h
  exact mapped unmapped

/-- On a page of RAM or ROM, the page decides for all bytes. -/
theorem refusal_mapped {e : PageEntry} (found : m.page? (pageOf (virtToPhys vaddr)) = some e) {k : Nat}
    (short : k < n) : m.flat.refusal (vaddr + BitVec.ofNat 32 k) = none ↔ e.readOnly = false := by
  have page := (add_inPage vaddr k (by omega)).1
  simp [Flat.refusal, flat, page, found]

theorem codeHit_unmarked (unmarked : m.isCodePage (pageOf (virtToPhys vaddr)) = false) :
    m.codeHit vaddr n = ∅ := by
  refine Set.eq_empty_of_forall_notMem fun p h => ?_
  obtain rfl := page_of_codeHit inside h
  exact absurd h.1 (by simp [unmarked])

theorem codeHit_marked {e : PageEntry} (found : m.page? (pageOf (virtToPhys vaddr)) = some e)
    (writable : e.readOnly = false) (marked : m.isCodePage (pageOf (virtToPhys vaddr)) = true)
    (nonempty : 0 < n) : m.codeHit vaddr n = {pageOf (virtToPhys vaddr)} := by
  refine Set.eq_singleton_iff_unique_mem.2 ⟨⟨marked, 0, nonempty, fun j hj => ?_, ?_, ?_⟩, fun p h => ?_⟩
  · exact (refusal_mapped inside found (by omega)).2 writable
  · simp [found]
  · simp
  · exact page_of_codeHit inside h

end

end Memory

namespace Observed

/-- What a write reports, and the effect that it returns. -/
structure Reported (o : Observed) (vaddr : Word) (data : List Byte)
    (r : Except MemError WriteEffect × Observed) : Prop where
  reports : Reports o (o.mem.codeHit vaddr data.length)
    (fun n => Notice.Fits vaddr data → n.Stored vaddr data) r.2
  effect : ∀ e, r.1 = .ok e → e.Tells (o.mem.codeHit vaddr data.length)

/-- It also succeeds if no byte is refused, and not otherwise. -/
structure Bytewise (o : Observed) (vaddr : Word) (data : List Byte)
    (r : Except MemError WriteEffect × Observed) : Prop extends Reported o vaddr data r where
  accepted : ∀ e, r.1 = .ok e → ∀ k < data.length, o.mem.flat.refusal (vaddr + BitVec.ofNat 32 k) = none
  refused : ∀ e, r.1 = .error e → ∃ k < data.length, o.mem.flat.refusal (vaddr + BitVec.ofNat 32 k) ≠ none

/-- The devices that are called store to no page that was marked. -/
def Spares (o : Observed) (mem : Memory) : Prop := o.mem.Spared (o.mem.isCodePage · = true) mem

/-- So it is for the rest of a call, since marks are only lost. -/
theorem Spares.rest {o o' : Observed} {mem : Memory} (h : Spares o mem) {hit : Set Nat} {stored : Notice → Prop}
    (first : Reports o hit stored o') (kept : o.mem.Kept o'.mem) : Spares o' mem :=
  (Memory.Spared.rest h kept.board kept.past).mono fun p marked => ((first.marked_iff p).1 marked).1

/-- Nobody is told of what is stored to pages that are not marked. -/
theorem foldl_deposit_untold (o : Observed) (stores : List Deposit)
    (off : ∀ d ∈ stores, o.mem.isCodePage d.page = false) :
    ∃ mem, stores.foldl deposit o = { o with mem } ∧ mem.code = o.mem.code ∧ mem.events = o.mem.events := by
  induction stores generalizing o with
  | nil => exact ⟨o.mem, rfl, rfl, rfl⟩
  | cons d rest ih =>
    have first : ∃ mem, o.deposit d = { o with mem } ∧ mem.code = o.mem.code ∧ mem.events = o.mem.events := by
      unfold deposit
      split
      · next e found =>
        unfold writePage
        split
        · exact ⟨o.mem, rfl, rfl, rfl⟩
        · have unmarked := off d List.mem_cons_self
          unfold Deposit.page at unmarked
          dsimp only
          rw [if_neg (by rw [unmarked]; exact nofun)]
          exact ⟨_, rfl, by simp, by simp⟩
      · exact ⟨o.mem, rfl, rfl, rfl⟩
    obtain ⟨mem, eq, code, events⟩ := first
    have marks (p : Nat) : mem.isCodePage p = o.mem.isCodePage p := by
      unfold Memory.isCodePage Memory.codeState
      rw [code]
    obtain ⟨mem', eq', code', events'⟩ := ih { o with mem } fun d' later => by
      rw [marks]
      exact off d' (List.mem_cons_of_mem _ later)
    rw [List.foldl_cons, eq]
    exact ⟨mem', eq', code'.trans code, events'.trans events⟩

section
variable {o : Observed} (passive : o.Passive) {stored : Notice → Prop}
include passive

theorem call_reports {c : Call} (spares : Spares o (o.mem.call c).2) : Reports o ∅ stored (o.call c).2 := by
  have kept := (o.mem.pieces_call c).kept
  have same := congrArg Prod.snd (o.call_mirrors passive c).same
  obtain ⟨mem, eq, code, events⟩ :=
    foldl_deposit_untold { o with mem := o.mem.called c } (o.mem.reply c).stores
      fun d made => Bool.eq_false_iff.2 (spares.stores d made)
  have called : (o.call c).2 = { o with mem } := eq
  rw [called] at same ⊢
  obtain rfl : mem = (o.mem.call c).2 := same
  refine .quiet [c.event] kept.regions kept.devices code ?_ ?_
  · rw [events]
    exact Array.toList_push
  · cases c <;> simp [Call.event]

theorem writeDevice_reports {vaddr : Word} {size : Nat} {v : Quad}
    (spares : Spares o (o.mem.writeDevice vaddr size v).2) :
    Reports o ∅ stored (o.writeDevice vaddr size v).2 := by
  unfold writeDevice
  unfold Memory.writeDevice at spares
  dsimp only at spares ⊢
  cases found : o.mem.device? (virtToPhys vaddr) with
  | none => exact .refl o
  | some r =>
    rw [found] at spares
    exact call_reports passive spares

theorem writeDeviceBytes_reports {vaddr : Word} {data : List Byte}
    (spares : Spares o (o.mem.writeDeviceBytes vaddr data).2) :
    Reports o ∅ stored (o.writeDeviceBytes vaddr data).2 := by
  induction data generalizing o vaddr with
  | nil => exact .refl o
  | cons b rest ih =>
    have mirrors := o.writeDevice_mirrors passive vaddr 1 (b.setWidth 128)
    have kept := (o.mem.pieces_writeDevice vaddr 1 (b.setWidth 128)).kept
    have reports := @writeDevice_reports o passive stored vaddr 1 (b.setWidth 128)
    have passive' := mirrors.passive passive
    rw [Memory.writeDeviceBytes] at spares
    rw [writeDeviceBytes]
    rw [← mirrors.same] at spares kept reports
    generalize o.writeDevice vaddr 1 (b.setWidth 128) = r at passive' kept reports spares ⊢
    obtain ⟨e | effect, o'⟩ := r
    · exact reports spares
    · have more := (o'.mem.pieces_writeDeviceBytes (vaddr + 1) rest).kept
      have first := reports (spares.first more.past)
      have later := ih passive' (spares.rest first kept)
      have both := first.trans later (by simp)
      rwa [Set.empty_union] at both

end

theorem writeInPage_unmapped {o : Observed} (passive : o.Passive) {vaddr : Word} {data : List Byte}
    (inside : pageOffset (virtToPhys vaddr) + data.length ≤ pageSize)
    (unmapped : o.mem.page? (pageOf (virtToPhys vaddr)) = none)
    (spares : Spares o (o.writeInPage vaddr data).2.mem) :
    Bytewise o vaddr data (o.writeInPage vaddr data) := by
  have written : o.writeInPage vaddr data = o.writeDeviceBytes vaddr data := by
    unfold writeInPage
    rw [unmapped]
  have untouched := Memory.codeHit_unmapped inside unmapped
  have takes {k : Nat} (short : k < data.length) :
      o.mem.flat.refusal (vaddr + BitVec.ofNat 32 k) = none ↔
        o.mem.device? (virtToPhys (vaddr + BitVec.ofNat 32 k)) ≠ none := by
    have page := (Memory.add_inPage vaddr k (by omega)).1
    rw [Memory.refusal_unmapped (by rw [page, unmapped])]
    cases o.mem.device? (virtToPhys (vaddr + BitVec.ofNat 32 k)) <;> simp
  have mirrors := o.writeDeviceBytes_mirrors passive vaddr data
  have left : (o.writeDeviceBytes vaddr data).2.mem = (o.mem.writeDeviceBytes vaddr data).2 :=
    congrArg Prod.snd mirrors.same
  rw [written, left] at spares
  have reports : Reports o ∅ (fun n => Notice.Fits vaddr data → n.Stored vaddr data)
      (o.writeDeviceBytes vaddr data).2 := writeDeviceBytes_reports passive spares
  have answer := congrArg Prod.fst mirrors.same
  rw [written]
  generalize o.writeDeviceBytes vaddr data = r at reports answer ⊢
  obtain ⟨result, o'⟩ := r
  dsimp only at answer
  rw [← untouched] at reports
  obtain ⟨ok, all⟩ | ⟨⟨e, failed⟩, k, short, free⟩ := o.mem.writeDeviceBytes_result vaddr data
  · rw [answer, ok]
    refine ⟨⟨reports, ?_⟩, fun _ _ k short => (takes short).2 (all k short), nofun⟩
    rintro effect ⟨⟩
    exact untouched
  · rw [answer, failed]
    refine ⟨⟨reports, nofun⟩, nofun, fun _ _ => ⟨k, short, ?_⟩⟩
    rw [ne_eq, takes short, not_not]
    exact free

/-- A page that is hit: its bytes are stored, it is taken for code no more, and then the observers are
called. -/
theorem reports_hit {o : Observed} (passive : o.Passive) {vaddr : Word} {data : List Byte} {e : PageEntry}
    (inside : pageOffset (virtToPhys vaddr) + data.length ≤ pageSize)
    (found : o.mem.page? (pageOf (virtToPhys vaddr)) = some e) :
    Reports o {pageOf (virtToPhys vaddr)} (Notice.Stored vaddr data)
      (invalidateCode
        { o with mem := o.mem.storeBytes (e.position (pageOffset (virtToPhys vaddr))) data }
        (pageOf (virtToPhys vaddr))) := by
  have bytes {k : Nat} (short : k < data.length) :
      (o.mem.storeBytes (e.position (pageOffset (virtToPhys vaddr))) data).storeByte
        (e.position (pageOffset (virtToPhys vaddr)) + k) = data.getD k 0 :=
    Memory.storeByte_storeBytes_inside short
  obtain ⟨store, eq⟩ := o.mem.storeBytes_eq (e.position (pageOffset (virtToPhys vaddr))) data
  rw [eq] at bytes ⊢
  rw [invalidateCode_eq (by exact passive)]
  generalize placed : pageOf (virtToPhys vaddr) = page at *
  refine ⟨rfl, rfl, rfl, ?_, ?_, ⟨_, rfl, ?_, ?_, ?_⟩, ⟨[.codeWritten page], ?_, ?_, ?_⟩⟩
  · rintro p ⟨⟩
    exact (Memory.codeState_invalidateCode _ page page).trans (if_pos rfl)
  · intro p other
    exact (Memory.codeState_invalidateCode _ page p).trans (if_neg other)
  · rintro p ⟨⟩
    exact (Notice.about_calls ..).trans (if_pos rfl)
  · intro p other
    exact (Notice.about_calls ..).trans (if_neg fun same => other same.symm)
  · intro n called
    obtain ⟨name, -, rfl⟩ := List.mem_map.1 called
    refine ⟨rfl, fun k b at_k _ => ?_⟩
    have short := (List.getElem?_eq_some_iff.1 at_k).1
    obtain ⟨same, offset⟩ := Memory.add_inPage vaddr k (by omega)
    have byte := bytes short
    rw [List.getD_eq_getElem?_getD, at_k, Option.getD_some] at byte
    rw [PageEntry.position, Nat.add_assoc, ← offset] at byte
    rw [Memory.readByte_mapped (e := e) (by rw [same, placed]; exact found)]
    exact congrArg Except.ok byte
  · simp [Memory.invalidateCode, Memory.record]
  · rintro p ⟨⟩
    simp
  · intro p other
    have ne : page ≠ p := fun same => other same.symm
    simp [ne]

theorem writeInPage_bytewise {o : Observed} (passive : o.Passive) {vaddr : Word} {data : List Byte}
    (nonempty : data ≠ []) (inside : pageOffset (virtToPhys vaddr) + data.length ≤ pageSize)
    (spares : Spares o (o.writeInPage vaddr data).2.mem) :
    Bytewise o vaddr data (o.writeInPage vaddr data) := by
  have some_byte : 0 < data.length := List.length_pos_iff.2 nonempty
  cases found : o.mem.page? (pageOf (virtToPhys vaddr)) with
  | none => exact o.writeInPage_unmapped passive inside found spares
  | some e =>
    have takes {k : Nat} (short : k < data.length) := Memory.refusal_mapped inside found short
    unfold writeInPage
    rw [found]
    unfold writePage
    dsimp only
    split
    · next readOnly =>
      have refused : o.mem.flat.refusal (vaddr + BitVec.ofNat 32 0) ≠ none := by
        rw [ne_eq, takes some_byte, readOnly]
        simp
      have untouched : o.mem.codeHit vaddr data.length = ∅ := by
        refine Set.eq_empty_of_forall_notMem ?_
        rintro p ⟨-, k, -, taken, -⟩
        exact refused (taken 0 (Nat.zero_le k))
      refine ⟨⟨?_, nofun⟩, nofun, fun _ _ => ⟨0, some_byte, refused⟩⟩
      rw [untouched]
      exact .refl o
    · next writable =>
      rw [Bool.not_eq_true] at writable
      split
      · next marked =>
        have hit := Memory.codeHit_marked inside found writable marked some_byte
        refine ⟨⟨?_, ?_⟩, fun _ _ k short => (takes short).2 writable, nofun⟩
        · rw [hit]
          exact (reports_hit passive inside found).imp fun n _ stored _ => stored
        · rintro effect ⟨⟩
          rw [hit]
          exact ⟨isLeast_singleton, isGreatest_singleton⟩
      · next unmarked =>
        rw [Bool.not_eq_true] at unmarked
        have untouched := Memory.codeHit_unmarked inside unmarked
        refine ⟨⟨?_, ?_⟩, fun _ _ k short => (takes short).2 writable, nofun⟩
        · rw [untouched]
          obtain ⟨store, eq⟩ := o.mem.storeBytes_eq (e.position (pageOffset (virtToPhys vaddr))) data
          rw [eq]
          exact .quiet [] rfl rfl rfl (by simp) (by simp)
        · rintro effect ⟨⟩
          exact untouched

end Observed

/-! ## Calls in pieces -/

namespace Notice

open Memory (roomInPage)

variable {vaddr : Word} {data : List Byte} {n : Notice}

/-- The later pieces of a call are for other pages. -/
theorem Stored.ofHead (h : n.Stored vaddr (data.take (roomInPage vaddr)))
    (page : n.page = pageOf (virtToPhys vaddr)) (fits : Fits vaddr data) : n.Stored vaddr data := by
  intro k b at_k same
  have bound := pageOffset_lt (virtToPhys vaddr)
  have short := (List.getElem?_eq_some_iff.1 at_k).1
  unfold Fits at fits
  by_cases first : k < roomInPage vaddr
  · exact h k b (by rw [List.getElem?_take_of_lt first, at_k]) same
  · unfold roomInPage at first
    exact absurd (same.trans page) (Memory.add_beyond vaddr k (by omega) (by omega))

/-- What comes after the first page begins at the start of the next. -/
theorem offset_rest (vaddr : Word) :
    pageOffset (virtToPhys (vaddr + BitVec.ofNat 32 (roomInPage vaddr))) = 0 := by
  have bound := pageOffset_lt (virtToPhys vaddr)
  rw [Memory.virtToPhys_add]
  unfold roomInPage pageOffset at *
  rw [show pageSize = 4096 from rfl, show physSpace = 536870912 from rfl] at *
  omega

theorem Fits.head (fits : Fits vaddr data) : Fits vaddr (data.take (roomInPage vaddr)) := by
  unfold Fits at *
  rw [List.length_take]
  omega

theorem Fits.rest (fits : Fits vaddr data) :
    Fits (vaddr + BitVec.ofNat 32 (roomInPage vaddr)) (data.drop (roomInPage vaddr)) := by
  unfold Fits at *
  rw [offset_rest, List.length_drop]
  omega

theorem Stored.ofRest
    (h : n.Stored (vaddr + BitVec.ofNat 32 (roomInPage vaddr)) (data.drop (roomInPage vaddr)))
    (page : n.page ≠ pageOf (virtToPhys vaddr)) : n.Stored vaddr data := by
  intro k b at_k same
  by_cases first : k < roomInPage vaddr
  · unfold roomInPage at first
    exact absurd (same.symm.trans (Memory.add_inPage vaddr k (by omega)).1) page
  · have later := h (k - roomInPage vaddr) b
    rw [List.getElem?_drop, Memory.addr_add, Nat.add_sub_cancel' (by omega)] at later
    exact later at_k same

end Notice

namespace Observed

open Memory (roomInPage)

section
variable {o o' : Observed} {vaddr : Word} {data : List Byte}

theorem writeHead_bytewise {o : Observed} (passive : o.Passive) (nonempty : data ≠ [])
    (spares : Spares o (o.writeInPage vaddr (data.take (roomInPage vaddr))).2.mem) :
    Bytewise o vaddr (data.take (roomInPage vaddr)) (o.writeInPage vaddr (data.take (roomInPage vaddr))) := by
  refine writeInPage_bytewise passive ?_ (Memory.head_inside vaddr data) spares
  have := Memory.roomInPage_pos vaddr
  rw [ne_eq, List.take_eq_nil_iff, not_or]
  exact ⟨by omega, nonempty⟩

section
variable {effect : WriteEffect} {r : Except MemError WriteEffect × Observed}
  (first : Bytewise o vaddr (data.take (roomInPage vaddr)) (.ok effect, o'))
include first

theorem Bytewise.codeHit_join :
    o.mem.codeHit vaddr data.length =
      o.mem.codeHit vaddr (data.take (roomInPage vaddr)).length ∪
        o'.mem.codeHit (vaddr + BitVec.ofNat 32 (roomInPage vaddr)) (data.drop (roomInPage vaddr)).length := by
  have accepted := first.accepted effect rfl
  have marked := first.reports.marked_iff
  rw [List.length_take] at accepted marked ⊢
  rw [List.length_drop]
  exact Memory.codeHit_cut first.reports.regions first.reports.devices accepted marked

theorem Bytewise.notMem_rest :
    ∀ p ∈ o.mem.codeHit vaddr (data.take (roomInPage vaddr)).length,
      p ∉ o'.mem.codeHit (vaddr + BitVec.ofNat 32 (roomInPage vaddr)) (data.drop (roomInPage vaddr)).length :=
  fun p hit later => ((first.reports.marked_iff p).1 later.1).2 hit

/-- The rest does not hit the page of the first piece: its mark is gone, or was not there. -/
theorem Bytewise.page_ne_of_rest {p : Nat}
    (later : p ∈ o'.mem.codeHit (vaddr + BitVec.ofNat 32 (roomInPage vaddr))
      (data.drop (roomInPage vaddr)).length) : p ≠ pageOf (virtToPhys vaddr) := by
  rintro rfl
  obtain ⟨code, k, short, -, mapped, -⟩ := later
  obtain ⟨marked, spared⟩ := (first.reports.marked_iff _).1 code
  have some_byte : 0 < (data.take (roomInPage vaddr)).length := by
    have := Memory.roomInPage_pos vaddr
    rw [List.length_drop] at short
    rw [List.length_take]
    omega
  refine spared ⟨marked, 0, some_byte, fun j hj => first.accepted effect rfl j (by omega), ?_, by simp⟩
  rwa [← Memory.page?_congr first.reports.regions]

theorem Bytewise.join
    (rest : Bytewise o' (vaddr + BitVec.ofNat 32 (roomInPage vaddr)) (data.drop (roomInPage vaddr)) r) :
    Bytewise o vaddr data (r.1.map effect.merge, r.2) := by
  have start := first.reports.imp
    fun n hit stored (fits : Notice.Fits vaddr data) =>
      (stored fits.head).ofHead (Memory.page_of_codeHit (Memory.head_inside vaddr data) hit) fits
  have finish := rest.reports.imp
    fun n hit stored (fits : Notice.Fits vaddr data) => (stored fits.rest).ofRest (first.page_ne_of_rest hit)
  have refusal (k : Nat) :
      o'.mem.flat.refusal (vaddr + BitVec.ofNat 32 (roomInPage vaddr) + BitVec.ofNat 32 k) =
        o.mem.flat.refusal (vaddr + BitVec.ofNat 32 (roomInPage vaddr + k)) := by
    rw [Memory.addr_add, Memory.refusal_congr first.reports.regions first.reports.devices]
  obtain ⟨result, o''⟩ := r
  refine ⟨⟨?_, ?_⟩, ?_, ?_⟩
  · rw [first.codeHit_join]
    exact start.trans finish first.notMem_rest
  · intro e ok
    obtain ⟨e', told, rfl⟩ : ∃ e', result = .ok e' ∧ effect.merge e' = e := by
      cases result with
      | error _ => cases ok
      | ok e' => exact ⟨e', rfl, Except.ok.inj ok⟩
    rw [first.codeHit_join]
    exact (first.effect effect rfl).merge (rest.effect e' told)
  · intro e ok k short
    obtain ⟨e', told⟩ : ∃ e', result = .ok e' := by
      cases result with
      | error _ => cases ok
      | ok e' => exact ⟨e', rfl⟩
    by_cases early : k < roomInPage vaddr
    · exact first.accepted effect rfl k (by simp; omega)
    · have later := rest.accepted e' told (k - roomInPage vaddr) (by simp; omega)
      rwa [refusal, Nat.add_sub_cancel' (by omega)] at later
  · intro e failed
    obtain ⟨e', told⟩ : ∃ e', result = .error e' := by
      cases result with
      | error e' => exact ⟨e', rfl⟩
      | ok _ => cases failed
    obtain ⟨k, short, refused⟩ := rest.refused e' told
    rw [refusal] at refused
    rw [List.length_drop] at short
    exact ⟨roomInPage vaddr + k, by omega, refused⟩

end

/-- Memory after a byte range is that after its first piece, or after the rest. -/
theorem writeBytes_left (m : Memory) (nonempty : data ≠ []) :
    (m.writeBytes vaddr data).2 =
      match m.writeInPage vaddr (data.take (roomInPage vaddr)) with
      | (.error _, m) => m
      | (.ok _, m) =>
        (m.writeBytes (vaddr + BitVec.ofNat 32 (roomInPage vaddr)) (data.drop (roomInPage vaddr))).2 := by
  rw [Memory.writeBytes, dif_neg nonempty]
  dsimp only
  obtain ⟨e | effect, m'⟩ := m.writeInPage vaddr (data.take (roomInPage vaddr))
  · rfl
  · dsimp only
    split <;> next rest => rw [rest]

/-- The first piece of a call, and what holds when the rest begins. -/
theorem writeBytes_step {o : Observed} (passive : o.Passive) (nonempty : data ≠ [])
    (spares : Spares o (o.mem.writeBytes vaddr data).2) :
    let r := o.writeInPage vaddr (data.take (roomInPage vaddr))
    r.2.Passive ∧ Bytewise o vaddr (data.take (roomInPage vaddr)) r ∧
      ∀ effect, r.1 = .ok effect →
        Spares r.2 (r.2.mem.writeBytes (vaddr + BitVec.ofNat 32 (roomInPage vaddr))
          (data.drop (roomInPage vaddr))).2 := by
  have mirrors := o.writeInPage_mirrors passive vaddr (data.take (roomInPage vaddr))
  have kept := (o.mem.pieces_writeInPage _ _ (Memory.head_inside vaddr data)).kept
  have bytewise := @writeHead_bytewise vaddr data o passive nonempty
  have passive' := mirrors.passive passive
  rw [writeBytes_left o.mem nonempty, ← mirrors.same] at spares
  rw [← mirrors.same] at kept
  generalize o.writeInPage vaddr (data.take (roomInPage vaddr)) = r at spares kept bytewise passive' ⊢
  obtain ⟨e | effect, o'⟩ := r
  · exact ⟨passive', bytewise spares, nofun⟩
  · have more := (o'.mem.pieces_writeBytes (vaddr + BitVec.ofNat 32 (roomInPage vaddr))
      (data.drop (roomInPage vaddr))).kept
    have first := bytewise (spares.first more.past)
    exact ⟨passive', first, fun _ _ => spares.rest first.reports kept⟩

theorem writeBytes_bytewise {o : Observed} (passive : o.Passive) (vaddr : Word) (data : List Byte)
    (spares : Spares o (o.mem.writeBytes vaddr data).2) : Bytewise o vaddr data (o.writeBytes vaddr data) := by
  fun_induction writeBytes o vaddr data with
  | case1 o vaddr =>
    have untouched : o.mem.codeHit vaddr 0 = ∅ := Set.eq_empty_of_forall_notMem (by rintro p ⟨-, k, ⟨⟩, -⟩)
    refine ⟨⟨?_, ?_⟩, fun _ _ k short => by simp at short, nofun⟩
    · rw [List.length_nil, untouched]
      exact .refl o
    · rintro effect ⟨⟩
      exact untouched
  | case2 o vaddr data nonempty n e o' written =>
    obtain ⟨-, first, -⟩ := writeBytes_step passive nonempty spares
    rw [written] at first
    obtain ⟨k, early, refused⟩ := first.refused e rfl
    have within : (data.take (roomInPage vaddr)).length ≤ data.length := by simp
    have all := Memory.codeHit_refused early within refused
    refine ⟨⟨?_, nofun⟩, nofun, fun _ _ => ⟨k, by omega, refused⟩⟩
    rw [all]
    exact first.reports.imp fun n hit stored fits =>
      (stored fits.head).ofHead (Memory.page_of_codeHit (Memory.head_inside vaddr data) hit) fits
  | case3 o vaddr data nonempty n effect o' written r o'' later ih
  | case4 o vaddr data nonempty n effect o' written r o'' later ih =>
    obtain ⟨passive', first, more⟩ := writeBytes_step passive nonempty spares
    rw [written] at passive' first more
    have rest := ih passive' (more effect rfl)
    rw [later] at rest
    exact first.join rest

end

theorem write_reported {o : Observed} (passive : o.Passive) (w : Width) (vaddr : Word) (v : Quad)
    (spares : Spares o (o.mem.write w vaddr v).2) :
    Reported o vaddr (leBytes w.size v.toNat) (o.write w vaddr v) := by
  have mirrors := o.write_mirrors passive w vaddr v
  have left : (o.write w vaddr v).2.mem = (o.mem.write w vaddr v).2 := congrArg Prod.snd mirrors.same
  rw [← left] at spares
  unfold write at spares ⊢
  dsimp only at spares ⊢
  split
  · next inPage =>
    rw [if_pos inPage] at spares
    have inside : pageOffset (virtToPhys vaddr) + (leBytes w.size v.toNat).length ≤ pageSize := by
      rw [length_leBytes]
      exact of_decide_eq_true inPage
    cases found : o.mem.page? (pageOf (virtToPhys vaddr)) with
    | some e =>
      rw [found] at spares
      have nonempty : leBytes w.size v.toNat ≠ [] := by
        have := w.size_pos
        rw [← List.length_pos_iff, length_leBytes]
        exact this
      exact (writeInPage_bytewise passive nonempty inside spares).toReported
    | none =>
      rw [found] at spares
      -- The device at the first byte gets the whole access.
      have untouched := Memory.codeHit_unmapped inside found
      have device := o.writeDevice_mirrors passive vaddr w.size (w.truncate v)
      have after : (o.writeDevice vaddr w.size (w.truncate v)).2.mem =
          (o.mem.writeDevice vaddr w.size (w.truncate v)).2 := congrArg Prod.snd device.same
      refine ⟨?_, fun effect ok => ?_⟩
      · rw [untouched]
        rw [after] at spares
        exact writeDevice_reports passive spares
      · dsimp only at ok
        unfold writeDevice at ok
        dsimp only at ok
        split at ok
        · obtain rfl := Except.ok.inj ok
          exact untouched
        · cases ok
  · next crosses =>
    rw [if_neg crosses] at spares
    have bytes := o.writeBytes_mirrors passive vaddr (leBytes w.size v.toNat)
    have after : (o.writeBytes vaddr (leBytes w.size v.toNat)).2.mem =
        (o.mem.writeBytes vaddr (leBytes w.size v.toNat)).2 := congrArg Prod.snd bytes.same
    rw [after] at spares
    exact (writeBytes_bytewise passive vaddr _ spares).toReported

end Observed

/-! ## Who is called -/

namespace Enrolment

def drops (name : String) : Enrolment → Bool
  | drop other => other = name
  | register .. => false

/-- Those who have registered and were not dropped since. -/
def standing : List Enrolment → List String
  | [] => []
  | register name _ :: later => if later.any (drops name) then standing later else name :: standing later
  | drop _ :: later => standing later

end Enrolment

namespace Observer

theorem callees_register (observers : List Observer) (name : String) (run : Callback) :
    callees (register observers name run) = callees observers ++ [name] := by
  simp [callees, register, List.filter_filter]

theorem callees_drop (observers : List Observer) (name : String) :
    callees (drop observers name) = (callees observers).filter (· ≠ name) := by
  induction observers with
  | nil => rfl
  | cons r rest ih =>
    unfold callees drop at ih ⊢
    rw [List.map_cons]
    split <;> cases alive : r.alive <;> simp_all

theorem callees_enrol (acts : List Enrolment) (observers : List Observer) :
    callees (acts.foldl enrol observers) =
      (callees observers).filter (fun name => !acts.any (Enrolment.drops name)) ++ Enrolment.standing acts := by
  induction acts generalizing observers with
  | nil =>
    rw [Enrolment.standing, List.append_nil, List.filter_eq_self.2 (by simp)]
    rfl
  | cons act later ih =>
    rw [List.foldl_cons, ih]
    cases act with
    | register name run =>
      rw [enrol, callees_register, List.filter_append, List.append_assoc]
      simp only [List.any_cons, Enrolment.drops, Bool.false_or, Enrolment.standing]
      cases dropped : later.any (Enrolment.drops name) <;> simp [dropped]
    | drop name =>
      rw [enrol, callees_drop, List.filter_filter]
      simp only [List.any_cons, Enrolment.drops, Enrolment.standing, Bool.not_or]
      congr 2
      funext other
      simp [eq_comm, Bool.and_comm]

/-- What holds of the callbacks of all that registered holds of those that are left. -/
theorem runs_enrol {P : Callback → Prop} (acts : List Enrolment) {observers : List Observer}
    (each : ∀ name run, .register name run ∈ acts → P run) (before : ∀ r ∈ observers, P r.run) :
    ∀ r ∈ acts.foldl enrol observers, P r.run := by
  induction acts generalizing observers with
  | nil => exact before
  | cons act later ih =>
    refine ih (fun name run made => each name run (List.mem_cons_of_mem _ made)) ?_
    cases act with
    | register name run =>
      intro r left
      obtain old | new := List.mem_append.1 left
      · exact before r (List.mem_filter.1 old).1
      · obtain rfl := List.mem_singleton.1 new
        exact each name run List.mem_cons_self
    | drop name =>
      intro r left
      obtain ⟨r', old, rfl⟩ := List.mem_map.1 left
      split <;> exact before r' old

end Observer

namespace Observed

def twoPages : Memory := ((((Memory.empty 8192).withRam 0 8192).markCode 0).2.markCode 1).2

def roll : List Enrolment := [.register "dropped" fun _ _ m => m, .register "kept" fun _ _ m => m, .drop "dropped"]

/-- It matters that observers leave memory alone: one that marks the page again leaves a mark. -/
example :
    let again : Callback := fun _ page m => (m.markCode page).2
    let o : Observed := { mem := twoPages, observers := [⟨"again", again, true⟩] }
    (o.writeBytes 0 [1]).2.mem.isCodePage 0 = true := by
  decide +kernel

end Observed

end EmotionEngine
