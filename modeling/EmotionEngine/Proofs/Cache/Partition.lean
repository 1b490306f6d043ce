import EmotionEngine.Proofs.Cache.Arena
import EmotionEngine.Proofs.Cache.Total
import Mathlib.Algebra.BigOperators.Group.Finset.Piecewise
import Mathlib.Order.Interval.Finset.Nat

/-!
The arena partitions its space. Whatever is allocated, given back and reset, in any order, the free ranges
and the live allocations lie apart from each other and fill the arena.

1. The free ranges ascend, with at least one byte in use between any two (`Spaced`). An allocation cuts a
   range at its start, so the gaps stay. A range that is given back is joined with the range that ends where
   it starts and with the range that starts where it ends, so again there is a gap on both sides of it.
2. Every byte of the arena is in exactly one free range or live allocation (`Tiled.counts`). So the sizes add
   up to the capacity, and when nothing is live, the gaps leave room for one range only.

Main statement: `Arena.reached_partitioned`.
-/

namespace EmotionEngine.Arena

open Host (CodeByte)

/-! ## Ranges and their bytes -/

/-- Two ranges have no byte in common. -/
def Apart (r s : FreeRange) : Prop :=
  ∀ x, ¬((r.start ≤ x ∧ x < r.start + r.size) ∧ s.start ≤ x ∧ x < s.start + s.size)

theorem hits_eq_one {start size x : Nat} (inside : start ≤ x ∧ x < start + size) : hits start size x = 1 :=
  if_pos inside

theorem cover_append (x : Nat) (ranges ranges' : List FreeRange) :
    cover x (ranges ++ ranges') = cover x ranges + cover x ranges' := by
  induction ranges with
  | nil => simp
  | cons r ranges ih =>
    simp only [List.cons_append, cover_cons, ih]
    omega

theorem cover_pos_iff (x : Nat) (ranges : List FreeRange) :
    0 < cover x ranges ↔ ∃ r ∈ ranges, r.start ≤ x ∧ x < r.start + r.size := by
  induction ranges with
  | nil => simp
  | cons r ranges ih =>
    simp only [cover_cons, List.mem_cons, exists_eq_or_imp, ← ih, hits]
    split
    · next inside => simp only [inside, and_self, true_or, iff_true]; omega
    · next outside => simp only [outside, false_or, Nat.zero_add]

/-- Ranges that count no byte twice lie apart. -/
theorem pairwise_apart_of_once {ranges : List FreeRange} (once : ∀ x, cover x ranges ≤ 1) :
    ranges.Pairwise Apart := by
  induction ranges with
  | nil => exact .nil
  | cons r ranges ih =>
    refine List.pairwise_cons.2 ⟨fun s hs x both => ?_, ih fun x => ?_⟩
    · have total := once x
      have later := hits_le_cover hs x
      rw [cover_cons, hits_eq_one both.1] at total
      rw [hits_eq_one both.2] at later
      omega
    · have total := once x
      rw [cover_cons] at total
      omega

/-- A range and others that count no byte twice: each of the others comes before it or after it. -/
theorem beside_of_once {new r : FreeRange} {ranges : List FreeRange} (positive : 0 < new.size)
    (filled : Filled ranges) (once : ∀ x, hits new.start new.size x + cover x ranges ≤ 1)
    (hr : r ∈ ranges) : r.start + r.size ≤ new.start ∨ new.start + new.size ≤ r.start := by
  by_contra beside
  have size := filled r hr
  -- The later of the two starts would be in both.
  have total := once (max new.start r.start)
  have own := hits_le_cover hr (max new.start r.start)
  rw [hits_eq_one (by omega)] at total own
  omega

theorem sum_hits {start size n : Nat} (inside : start + size ≤ n) :
    ∑ x ∈ Finset.range n, hits start size x = size := by
  have bytes : (Finset.range n).filter (fun x => start ≤ x ∧ x < start + size) =
      Finset.Ico start (start + size) := by
    ext x
    simp only [Finset.mem_filter, Finset.mem_range, Finset.mem_Ico]
    omega
  simp only [hits, ← Finset.card_filter, bytes, Nat.card_Ico, Nat.add_sub_cancel_left]

theorem sum_cover {ranges : List FreeRange} {n : Nat} (inside : ∀ r ∈ ranges, r.start + r.size ≤ n) :
    ∑ x ∈ Finset.range n, cover x ranges = ranges.foldr (fun r m => r.size + m) 0 := by
  induction ranges with
  | nil => simp
  | cons r ranges ih =>
    simp only [cover_cons, Finset.sum_add_distrib, List.foldr_cons]
    rw [sum_hits (inside r List.mem_cons_self), ih fun s hs => inside s (List.mem_cons_of_mem _ hs)]

/-! ## Ranges with gaps -/

/-- Ranges in ascending order, no two of them adjacent. -/
def Spaced (ranges : List FreeRange) : Prop := ranges.Pairwise fun r s => r.start + r.size < s.start

/-- A range that starts and ends between units. -/
def Aligned (r : FreeRange) : Prop := r.start % unit = 0 ∧ r.size % unit = 0

section
variable {ranges : List FreeRange} (h : Spaced ranges)
include h

/-- Of two of the ranges, one comes before the other. -/
theorem Spaced.cases {r s : FreeRange} (hr : r ∈ ranges) (hs : s ∈ ranges) :
    r = s ∨ r.start + r.size < s.start ∨ s.start + s.size < r.start := by
  induction ranges with
  | nil => simp at hr
  | cons t ranges ih =>
    obtain ⟨first, rest⟩ := List.pairwise_cons.1 h
    obtain own | hr := List.mem_cons.1 hr
    · obtain own' | hs := List.mem_cons.1 hs
      · exact .inl (own.trans own'.symm)
      · exact .inr (.inl (own ▸ first s hs))
    · obtain own' | hs := List.mem_cons.1 hs
      · exact .inr (.inr (own' ▸ first r hr))
      · exact ih rest hr hs

theorem Spaced.last {p r : FreeRange} (last : ranges.getLast? = some p) (hr : r ∈ ranges) :
    r = p ∨ r.start + r.size < p.start := by
  obtain ⟨init, rfl⟩ := List.getLast?_eq_some_iff.1 last
  obtain old | own := List.mem_append.1 hr
  · exact .inr ((List.pairwise_append.1 h).2.2 r old p (by simp))
  · exact .inl (by simpa using own)

theorem Spaced.drop (start : Nat) : Spaced (dropRange start ranges) := List.Pairwise.filter _ h

/-- A range with gaps on both sides is put at its place. -/
theorem Spaced.put {new : FreeRange}
    (beside : ∀ r ∈ ranges, r.start + r.size < new.start ∨ new.start + new.size < r.start) :
    Spaced (putRange new ranges) := by
  induction ranges with
  | nil => exact List.pairwise_singleton _ _
  | cons r ranges ih =>
    obtain ⟨first, rest⟩ := List.pairwise_cons.1 h
    have own := beside r List.mem_cons_self
    unfold putRange
    split
    · next before =>
      refine List.pairwise_cons.2 ⟨fun s hs => ?_, h⟩
      obtain rfl | hs := List.mem_cons.1 hs
      · omega
      · have := first s hs
        omega
    · rw [if_neg (by omega)]
      refine List.pairwise_cons.2 ⟨fun s hs => ?_, ih rest fun s hs => beside s (List.mem_cons_of_mem _ hs)⟩
      obtain rfl | old := mem_putRange hs
      · omega
      · exact first s old

end

/-! ## Taking -/

theorem takeFirst_eq_none_iff {need : Nat} {ranges : List FreeRange} :
    takeFirst need ranges = none ↔ ∀ r ∈ ranges, r.size < need := by
  induction ranges with
  | nil => simp [takeFirst]
  | cons r ranges ih =>
    unfold takeFirst
    split
    · next fits => simp [fits]
    · next short => simp [ih, Nat.lt_of_not_le short]

section
variable {need start : Nat} {ranges rest : List FreeRange} (taken : takeFirst need ranges = some (start, rest))
include taken

/-- What is left are the ranges as they were, one of them without its first bytes. -/
theorem mem_of_takeFirst {s : FreeRange} (hs : s ∈ rest) :
    s ∈ ranges ∨ ∃ r ∈ ranges, need ≤ r.size ∧ s = { start := r.start + need, size := r.size - need } := by
  induction ranges generalizing rest with
  | nil => cases taken
  | cons r ranges ih =>
    unfold takeFirst at taken
    split at taken
    · next fits =>
      cases taken
      split at hs
      · obtain rfl | hs := List.mem_cons.1 hs
        · exact .inr ⟨r, List.mem_cons_self, fits, rfl⟩
        · exact .inl (List.mem_cons_of_mem _ hs)
      · exact .inl (List.mem_cons_of_mem _ hs)
    · obtain ⟨⟨start', rest'⟩, taken', e⟩ := Option.map_eq_some_iff.1 taken
      cases e
      obtain rfl | hs := List.mem_cons.1 hs
      · exact .inl List.mem_cons_self
      · obtain old | ⟨t, ht, cut⟩ := ih taken' hs
        · exact .inl (List.mem_cons_of_mem _ old)
        · exact .inr ⟨t, List.mem_cons_of_mem _ ht, cut⟩

/-- The range that is taken from comes first among those that are long enough. -/
theorem takeFirst_lowest (spaced : Spaced ranges) :
    ∃ r ∈ ranges, r.start = start ∧ need ≤ r.size ∧ ∀ s ∈ ranges, need ≤ s.size → start ≤ s.start := by
  induction ranges generalizing rest with
  | nil => cases taken
  | cons r ranges ih =>
    obtain ⟨first, spaced'⟩ := List.pairwise_cons.1 spaced
    unfold takeFirst at taken
    split at taken
    · next fits =>
      cases taken
      refine ⟨r, List.mem_cons_self, rfl, fits, fun s hs _ => ?_⟩
      obtain rfl | hs := List.mem_cons.1 hs
      · exact Nat.le_refl _
      · have := first s hs
        omega
    · next short =>
      obtain ⟨⟨start', rest'⟩, taken', e⟩ := Option.map_eq_some_iff.1 taken
      cases e
      obtain ⟨t, ht, at_start, fits, lowest⟩ := ih taken' spaced'
      refine ⟨t, List.mem_cons_of_mem _ ht, at_start, fits, fun s hs enough => ?_⟩
      obtain rfl | hs := List.mem_cons.1 hs
      · exact absurd enough short
      · exact lowest s hs enough

theorem takeFirst_spaced (spaced : Spaced ranges) : Spaced rest := by
  induction ranges generalizing rest with
  | nil => cases taken
  | cons r ranges ih =>
    obtain ⟨first, spaced'⟩ := List.pairwise_cons.1 spaced
    unfold takeFirst at taken
    split at taken
    · cases taken
      split
      · refine List.pairwise_cons.2 ⟨fun s hs => ?_, spaced'⟩
        have := first s hs
        dsimp only
        omega
      · exact spaced'
    · obtain ⟨⟨start', rest'⟩, taken', e⟩ := Option.map_eq_some_iff.1 taken
      cases e
      refine List.pairwise_cons.2 ⟨fun s hs => ?_, ih taken' spaced'⟩
      obtain old | ⟨t, ht, -, rfl⟩ := mem_of_takeFirst taken' hs
      · exact first s old
      · have := first t ht
        dsimp only
        omega

end

/-! ## Giving back -/

section
variable {range : FreeRange} {ranges : List FreeRange}

/-- After a range is joined with the one before it, there is a gap before it. -/
theorem joinBefore_beside (spaced : Spaced ranges) (filled : Filled ranges)
    (beside : ∀ r ∈ ranges, r.start + r.size ≤ range.start ∨ range.start + range.size ≤ r.start) :
    ∀ r ∈ (joinBefore range ranges).2,
      r.start + r.size < (joinBefore range ranges).1.start ∨ range.start + range.size ≤ r.start := by
  unfold joinBefore
  split
  · next p before =>
    have found := List.mem_filter.1 (List.mem_of_getLast? before)
    split
    · next adjacent =>
      intro r hr
      obtain ⟨hr, other⟩ := List.mem_filter.1 hr
      have other : r.start ≠ p.start := by simpa using other
      have := filled r hr
      have := beside r hr
      obtain rfl | first | later := spaced.cases hr found.1
      · exact absurd rfl other
      · exact .inl first
      · right
        omega
    · next gap =>
      intro r hr
      have := filled r hr
      obtain first | later := beside r hr
      · left
        -- A range that ended where the new one starts would be the last before it.
        have before' : r ∈ ranges.filter (fun s => s.start < range.start) :=
          List.mem_filter.2 ⟨hr, decide_eq_true (by omega)⟩
        obtain rfl | earlier := Spaced.last (spaced.filter _) before before'
        · dsimp only
          omega
        · have := of_decide_eq_true found.2
          dsimp only
          omega
      · exact .inr later
  · next none =>
    intro r hr
    right
    obtain first | later := beside r hr
    · have := filled r hr
      rw [rangeBefore?, List.getLast?_eq_none_iff, List.filter_eq_nil_iff] at none
      have := none r hr
      simp only [decide_eq_true_eq] at this
      omega
    · exact later

/-- After a range is joined with the one after it too, there are gaps on both sides. -/
theorem joinAfter_beside (spaced : Spaced ranges) {stop : Nat} (ends : range.start + range.size = stop)
    (beside : ∀ r ∈ ranges, r.start + r.size < range.start ∨ stop ≤ r.start) :
    ∀ r ∈ (joinAfter stop range ranges).2,
      r.start + r.size < (joinAfter stop range ranges).1.start ∨
        (joinAfter stop range ranges).1.start + (joinAfter stop range ranges).1.size < r.start := by
  unfold joinAfter
  split
  · next n after =>
    have adjacent : n.start = stop := by simpa using List.find?_some after
    intro r hr
    obtain ⟨hr, other⟩ := List.mem_filter.1 hr
    have other : r.start ≠ stop := by simpa using other
    have := beside r hr
    obtain rfl | first | later := spaced.cases hr (List.mem_of_find?_eq_some after)
    · exact absurd adjacent other
    · left
      dsimp only
      omega
    · right
      dsimp only
      omega
  · next none =>
    intro r hr
    have other : r.start ≠ stop := by simpa using List.find?_eq_none.1 none r hr
    have := beside r hr
    dsimp only
    omega

theorem giveBack_aligned (own : Aligned range) (all : ∀ r ∈ ranges, Aligned r) :
    ∀ r ∈ giveBack range ranges, Aligned r := by
  have join {r s : FreeRange} (hr : Aligned r) (hs : Aligned s) (size : Nat)
      (both : size = r.size + s.size) : Aligned { start := r.start, size } := by
    obtain ⟨start, size⟩ := hr
    refine ⟨start, ?_⟩
    have := hs.2
    simp only [unit] at *
    omega
  have before : Aligned (joinBefore range ranges).1 ∧ ∀ r ∈ (joinBefore range ranges).2, Aligned r := by
    unfold joinBefore
    split
    · next p found =>
      split
      · exact ⟨join (all p (List.mem_filter.1 (List.mem_of_getLast? found)).1) own _ (Nat.add_comm _ _),
          fun r hr => all r (List.mem_filter.1 hr).1⟩
      · exact ⟨own, all⟩
    · exact ⟨own, all⟩
  unfold giveBack
  generalize joinBefore range ranges = p at before
  obtain ⟨new, ranges'⟩ := p
  obtain ⟨own', all'⟩ := before
  have after (stop : Nat) : Aligned (joinAfter stop new ranges').1 ∧
      ∀ r ∈ (joinAfter stop new ranges').2, Aligned r := by
    unfold joinAfter
    split
    · next n found =>
      exact ⟨join own' (all' n (List.mem_of_find?_eq_some found)) _ rfl,
        fun r hr => all' r (List.mem_filter.1 hr).1⟩
    · exact ⟨own', all'⟩
  intro r hr
  obtain rfl | old := mem_putRange hr
  · exact (after _).1
  · exact (after _).2 r old

theorem giveBack_spaced (spaced : Spaced ranges) (positive : 0 < range.size) (filled : Filled ranges)
    (once : ∀ x, hits range.start range.size x + cover x ranges ≤ 1) : Spaced (giveBack range ranges) := by
  have stop := (joinBefore_joined positive filled once).2
  have beside := joinBefore_beside spaced filled fun r hr => beside_of_once positive filled once hr
  have spaced' : Spaced (joinBefore range ranges).2 := by
    unfold joinBefore
    split
    · split
      · exact spaced.drop _
      · exact spaced
    · exact spaced
  unfold giveBack
  generalize joinBefore range ranges = p at stop beside spaced'
  obtain ⟨new, ranges'⟩ := p
  dsimp only at stop beside spaced' ⊢
  refine Spaced.put ?_ (joinAfter_beside spaced' stop beside)
  unfold joinAfter
  split
  · exact spaced'.drop _
  · exact spaced'

end

/-! ## Live allocations -/

/-- An allocation that was not given back: where it is, and the code that was copied there. -/
structure Piece where
  offset : Nat
  code : List CodeByte
  deriving DecidableEq

namespace Piece

def size (p : Piece) : Nat := footprint p.code.length

def range (p : Piece) : FreeRange := { start := p.offset, size := p.size }

end Piece

/-- The bytes that some pieces take together. -/
def taken (live : List Piece) : Nat := live.foldr (fun p n => p.size + n) 0

def giveUp (a : Arena) (p : Piece) : Arena := a.release p.offset p.code.length

/-- An arena of a size that has been through some operations, with the pieces that are live. What is given
back is live, and is no longer afterwards. -/
inductive Reached (size : Nat) : List Piece → Arena → Prop where
  | new : Reached size [] (ofSize size)
  | alloc {live : List Piece} {a a' : Arena} {offset : Nat} (before : Reached size live a)
    (code : List CodeByte) (placed : a.alloc? code = some (offset, a')) : Reached size (⟨offset, code⟩ :: live) a'
  | free {live rest : List Piece} {a : Arena} (before : Reached size live a) (p : Piece)
    (held : live.Perm (p :: rest)) : Reached size rest (a.giveUp p)
  | reset {live : List Piece} {a : Arena} (before : Reached size live a) : Reached size [] a.reset

/-- What all operations keep. -/
structure Tiled (live : List Piece) (a : Arena) : Prop where
  spaced : Spaced a.free
  filled : Filled a.free
  aligned : ∀ r ∈ a.free ++ live.map Piece.range, Aligned r
  /-- Every byte is counted once. -/
  counts : ∀ x, cover x a.free + cover x (live.map Piece.range) = if x < a.capacity then 1 else 0
  used : a.used = taken live
  capacity : 0 < a.capacity ∧ a.capacity % unit = 0
  intact : ∀ p ∈ live, a.read p.offset p.code.length = p.code

theorem tiled_all {a : Arena} (all : a.free = [{ start := 0, size := a.capacity }]) (used : a.used = 0)
    (capacity : 0 < a.capacity ∧ a.capacity % unit = 0) : Tiled [] a := by
  refine ⟨?_, ?_, ?_, ?_, used, capacity, by simp⟩
  · rw [all]
    exact List.pairwise_singleton _ _
  · rw [all]
    intro r hr
    rw [List.mem_singleton.1 hr]
    exact capacity.1
  · rw [all]
    intro r hr
    rw [List.mem_singleton.1 hr]
    exact ⟨rfl, capacity.2⟩
  · intro x
    rw [all]
    exact hits_zero a.capacity x

theorem tiled_ofSize (size : Nat) : Tiled [] (ofSize size) := by
  refine tiled_all rfl rfl ?_
  simp only [ofSize, granule, unit]
  omega

namespace Tiled

theorem perm {live live' : List Piece} {a : Arena} (h : Tiled live a) (same : live.Perm live') :
    Tiled live' a := by
  have ranges := same.map Piece.range
  refine ⟨h.spaced, h.filled, fun r hr => h.aligned r ?_, fun x => ?_, ?_, h.capacity, fun p hp => h.intact p ?_⟩
  · exact ((ranges.symm.append_left a.free).mem_iff).1 hr
  · rw [← h.counts x]
    exact congrArg (cover x a.free + ·) (Cache.foldr_add_perm ranges.symm)
  · rw [h.used]
    exact Cache.foldr_add_perm same
  · exact same.mem_iff.2 hp

section
variable {live : List Piece} {a : Arena} (h : Tiled live a)
include h

theorem once (x : Nat) : cover x a.free + cover x (live.map Piece.range) ≤ 1 := by
  rw [h.counts x]
  split <;> omega

theorem inside {r : FreeRange} (hr : r ∈ a.free ++ live.map Piece.range) (positive : 0 < r.size) :
    r.start + r.size ≤ a.capacity := by
  have own := hits_le_cover hr (r.start + r.size - 1)
  rw [cover_append, h.counts, hits_eq_one (by omega)] at own
  split at own <;> omega

theorem freeBytes_add_used : a.freeBytes + a.used = a.capacity := by
  have free : ∑ x ∈ Finset.range a.capacity, cover x a.free = a.freeBytes :=
    sum_cover fun r hr => h.inside (List.mem_append_left _ hr) (h.filled r hr)
  have live' : ∑ x ∈ Finset.range a.capacity, cover x (live.map Piece.range) = a.used := by
    rw [h.used, sum_cover, List.foldr_map]
    · rfl
    · intro r hr
      obtain ⟨p, -, rfl⟩ := List.mem_map.1 hr
      exact h.inside (List.mem_append_right _ hr) (footprint_pos _)
  calc a.freeBytes + a.used
      = ∑ x ∈ Finset.range a.capacity, (cover x a.free + cover x (live.map Piece.range)) := by
        rw [Finset.sum_add_distrib, free, live']
    _ = ∑ x ∈ Finset.range a.capacity, 1 :=
        Finset.sum_congr rfl fun x hx => by rw [h.counts, if_pos (Finset.mem_range.1 hx)]
    _ = a.capacity := by simp

theorem alloc {code : List CodeByte} {offset : Nat} {a' : Arena} (placed : a.alloc? code = some (offset, a')) :
    Tiled (⟨offset, code⟩ :: live) a' := by
  obtain ⟨⟨offset', free⟩, taken, eq⟩ := Option.map_eq_some_iff.1 placed
  cases eq
  obtain ⟨filled, covers⟩ := takeFirst_cover taken h.filled
  obtain ⟨r, hr, at_start, fits, -⟩ := takeFirst_lowest taken h.spaced
  have whole : footprint code.length % unit = 0 := by
    simp only [footprint]
    exact Nat.mul_mod_left _ _
  have own := h.aligned r (List.mem_append_left _ hr)
  refine ⟨takeFirst_spaced taken h.spaced, filled, ?_, ?_, ?_, h.capacity, ?_⟩
  · intro s hs
    simp only [List.map_cons, List.mem_append, List.mem_cons] at hs
    obtain left | rfl | old := hs
    · obtain same | ⟨t, ht, enough, rfl⟩ := mem_of_takeFirst taken left
      · exact h.aligned s (List.mem_append_left _ same)
      · have := h.aligned t (List.mem_append_left _ ht)
        simp only [Aligned, unit] at *
        omega
    · exact ⟨at_start ▸ own.1, whole⟩
    · exact h.aligned s (List.mem_append_right _ old)
  · intro x
    rw [← h.counts x, covers x]
    simp only [List.map_cons, cover_cons, Piece.range, Piece.size]
    omega
  · simp only [Arena.taken, List.foldr_cons, Piece.size, h.used]
    omega
  · intro p hp
    obtain rfl | old := List.mem_cons.1 hp
    · exact read_writeCells a offset' code
    · refine (read_writeCells_of_apart a ?_).trans (h.intact p old)
      -- A byte of both would be free and in use.
      intro i hi both
      have small := le_footprint p.code.length
      have small' := le_footprint code.length
      have total := h.once (p.offset + i)
      have used := hits_le_cover (List.mem_map_of_mem (f := Piece.range) old) (p.offset + i)
      rw [covers, hits_eq_one (by omega)] at total
      rw [hits_eq_one (by simp only [Piece.range, Piece.size]; omega)] at used
      omega

end

theorem free {live : List Piece} {a : Arena} {p : Piece} (h : Tiled (p :: live) a) : Tiled live (a.giveUp p) := by
  have positive : 0 < p.range.size := footprint_pos _
  have counts (x : Nat) := h.counts x
  simp only [List.map_cons, cover_cons] at counts
  have once (x : Nat) : hits p.range.start p.range.size x + cover x a.free ≤ 1 := by
    have := h.once x
    simp only [List.map_cons, cover_cons] at this
    omega
  obtain ⟨filled, covers⟩ := giveBack_cover positive h.filled once
  have aligned := giveBack_aligned (h.aligned p.range (by simp))
    fun r hr => h.aligned r (List.mem_append_left _ hr)
  refine ⟨giveBack_spaced h.spaced positive h.filled once, filled, ?_, ?_, ?_, h.capacity, ?_⟩
  · intro r hr
    obtain free | old := List.mem_append.1 hr
    · exact aligned r free
    · exact h.aligned r (by simp [old])
  · intro x
    show cover x (giveBack p.range a.free) + _ = if x < a.capacity then 1 else 0
    rw [covers x, ← counts x]
    omega
  · have used := h.used
    simp only [taken, List.foldr_cons] at used
    simp only [giveUp, release, taken, used, Piece.size]
    omega
  · exact fun q hq => h.intact q (List.mem_cons_of_mem _ hq)

/-- Where nothing is live, the gaps between free ranges leave room for one range only. -/
theorem free_eq {a : Arena} (h : Tiled [] a) : a.free = [{ start := 0, size := a.capacity }] := by
  have covered (x : Nat) : (∃ r ∈ a.free, r.start ≤ x ∧ x < r.start + r.size) ↔ x < a.capacity := by
    have counts := h.counts x
    simp only [List.map_nil, cover_nil, Nat.add_zero] at counts
    rw [← cover_pos_iff, counts]
    split <;> simp_all
  have spaced := h.spaced
  have filled := h.filled
  generalize a.free = ranges at covered spaced filled
  cases ranges with
  | nil =>
    have := (covered 0).2 h.capacity.1
    simp at this
  | cons r rest =>
    have first := (List.pairwise_cons.1 spaced).1
    -- No range but the first has a byte before or right after it.
    have alone (s : FreeRange) (hs : s ∈ r :: rest) {x : Nat} (early : x ≤ r.start + r.size)
        (has : s.start ≤ x) : s = r := by
      obtain rfl | later := List.mem_cons.1 hs
      · rfl
      · have := first s later
        omega
    have start : r.start = 0 := by
      obtain ⟨s, hs, low, -⟩ := (covered 0).2 h.capacity.1
      have := alone s hs (Nat.zero_le _) low
      subst this
      omega
    have stop : a.capacity ≤ r.start + r.size := by
      by_contra more
      obtain ⟨s, hs, low, high⟩ := (covered (r.start + r.size)).2 (by omega)
      have := alone s hs (Nat.le_refl _) low
      subst this
      omega
    have none : rest = [] := by
      refine List.eq_nil_iff_forall_not_mem.2 fun s hs => ?_
      have size := filled s (List.mem_cons_of_mem _ hs)
      have inside := (covered s.start).1 ⟨s, List.mem_cons_of_mem _ hs, Nat.le_refl _, by omega⟩
      have := first s hs
      omega
    have size := filled r List.mem_cons_self
    have inside := (covered (r.start + r.size - 1)).1 ⟨r, List.mem_cons_self, by omega, by omega⟩
    obtain ⟨s, n⟩ := r
    dsimp only at start stop inside
    rw [none, start, show n = a.capacity by omega]

theorem drain {live order : List Piece} {a : Arena} (h : Tiled live a) (same : order.Perm live) :
    Tiled [] (order.foldl giveUp a) := by
  induction order generalizing live a with
  | nil => exact h.perm same.symm
  | cons p order ih => exact ih (h.perm same.symm).free (.refl _)

end Tiled

theorem Reached.tiled {size : Nat} {live : List Piece} {a : Arena} (h : Reached size live a) : Tiled live a := by
  induction h with
  | new => exact tiled_ofSize size
  | alloc _ code placed ih => exact ih.alloc placed
  | free _ p held ih => exact (ih.perm held).free
  | reset _ ih => exact tiled_all rfl rfl ih.capacity

/-! ## The partition -/

/-- An arena that is partitioned into its free ranges and some pieces. -/
structure Partitioned (live : List Piece) (a : Arena) : Prop where
  disjoint : (a.free ++ live.map Piece.range).Pairwise Apart
  aligned : ∀ r ∈ a.free ++ live.map Piece.range, Aligned r
  covers : ∀ x, (∃ r ∈ a.free ++ live.map Piece.range, r.start ≤ x ∧ x < r.start + r.size) ↔ x < a.capacity
  /-- The free ranges ascend, and no two are adjacent. -/
  spaced : Spaced a.free
  used : a.used = taken live
  freeBytes : a.used ≤ a.capacity ∧ a.freeBytes = a.capacity - a.used
  /-- An allocation fails only where no free range is long enough. -/
  refused : ∀ code, a.alloc? code = none ↔ ∀ r ∈ a.free, r.size < footprint code.length
  /-- An allocation is at the start of the lowest free range that is long enough. -/
  lowest : ∀ {code offset a'}, a.alloc? code = some (offset, a') →
    (∃ r ∈ a.free, r.start = offset ∧ footprint code.length ≤ r.size) ∧
      ∀ r ∈ a.free, footprint code.length ≤ r.size → offset ≤ r.start
  intact : ∀ p ∈ live, a.read? p.offset p.code.length = some p.code
  /-- What is live can be given back. -/
  returnable : ∀ p ∈ live, a.release? p.offset p.code.length = some (a.giveUp p)
  /-- When everything is given back, in any order, all is one free range. -/
  drained : ∀ order : List Piece, order.Perm live →
    (order.foldl giveUp a).free = [{ start := 0, size := a.capacity }]

theorem size_le_taken {live : List Piece} {p : Piece} (hp : p ∈ live) : p.size ≤ taken live := by
  induction live with
  | nil => simp at hp
  | cons q live ih =>
    simp only [taken, List.foldr_cons]
    obtain rfl | old := List.mem_cons.1 hp
    · omega
    · have := ih old
      simp only [taken] at this
      omega

theorem capacity_foldl_giveUp (order : List Piece) (a : Arena) :
    (order.foldl giveUp a).capacity = a.capacity := by
  induction order generalizing a with
  | nil => rfl
  | cons p order ih => exact ih (a.giveUp p)

/-- The arena partitions its space. After any allocations, returns of live allocations and resets, in an arena
of any size: the free ranges and the live allocations are made of whole units, lie apart and fill the arena;
the free ranges are not adjacent; the bytes in use and the free bytes are accounted for; an allocation takes
the lowest place there is, and fails only if there is none; what is live is as it was copied in; and when all
of it is given back, in any order, the arena is one free range. -/
theorem reached_partitioned {size : Nat} {live : List Piece} {a : Arena} (reached : Reached size live a) :
    Partitioned live a := by
  have h := reached.tiled
  have bytes := h.freeBytes_add_used
  refine ⟨pairwise_apart_of_once fun x => ?_, h.aligned, fun x => ?_, h.spaced, h.used, ⟨by omega, by omega⟩,
    fun code => ?_, fun placed => ?_, fun p hp => ?_, fun p hp => ?_, fun order same => ?_⟩
  · rw [cover_append]
    exact h.once x
  · rw [← cover_pos_iff, cover_append, h.counts]
    split <;> simp_all
  · rw [← takeFirst_eq_none_iff]
    exact Option.map_eq_none_iff
  · obtain ⟨⟨offset, free⟩, taken, eq⟩ := Option.map_eq_some_iff.1 placed
    cases eq
    obtain ⟨r, hr, start, fits, lowest⟩ := takeFirst_lowest taken h.spaced
    exact ⟨⟨r, hr, start, fits⟩, lowest⟩
  · have inside := h.inside (List.mem_append_right _ (List.mem_map_of_mem (f := Piece.range) hp)) (footprint_pos _)
    have small := le_footprint p.code.length
    have fits : p.offset + p.code.length ≤ a.capacity := by
      simp only [Piece.range, Piece.size] at inside
      omega
    rw [read?, if_pos fits, h.intact p hp]
  · have enough : footprint p.code.length ≤ a.used := h.used ▸ size_le_taken hp
    rw [release?, if_pos enough]
    rfl
  · rw [(h.drain same).free_eq, capacity_foldl_giveUp]

/-- Where an allocation comes to lie is a matter of the free ranges. -/
theorem Reached.place {size : Nat} {live : List Piece} {a : Arena} (h : Reached size live a)
    (code : List CodeByte) (start : Nat) (rest : List FreeRange)
    (taken : takeFirst (footprint code.length) a.free = some (start, rest)) :
    ∃ a', Reached size (⟨start, code⟩ :: live) a' ∧ a'.free = rest := by
  let a' : Arena :=
    { a with free := rest, used := a.used + footprint code.length, cells := writeCells a.cells start code }
  have placed : a.alloc? code = some (start, a') := by
    rw [alloc?, taken]
    rfl
  exact ⟨a', h.alloc code placed, rfl⟩

def filler (n : Nat) : List CodeByte := List.replicate n (.lit 0x90)

/-- Of three allocations the first and the last are given back, so that the middle one has a hole before it:
too short for the next allocation, which goes behind it. -/
theorem reached_partitioned_hole :
    ∃ a, Reached 1 [⟨80, filler 100⟩, ⟨32, filler 40⟩] a ∧
      a.free = [⟨0, 32⟩, ⟨192, 3904⟩] ∧ Partitioned [⟨80, filler 100⟩, ⟨32, filler 40⟩] a := by
  have whole : Reached 1 [] (ofSize 1) := .new
  obtain ⟨a₁, one, free₁⟩ := whole.place (filler 20) 0 [⟨32, 4064⟩] rfl
  obtain ⟨a₂, two, free₂⟩ := one.place (filler 40) 32 [⟨80, 4016⟩] (by rw [free₁]; rfl)
  obtain ⟨a₃, three, free₃⟩ := two.place (filler 10) 80 [⟨96, 4000⟩] (by rw [free₂]; rfl)
  have first : Reached 1 [⟨80, filler 10⟩, ⟨32, filler 40⟩] (a₃.giveUp ⟨0, filler 20⟩) :=
    three.free ⟨0, filler 20⟩ (by decide +kernel)
  have hole := first.free ⟨80, filler 10⟩ (.refl _)
  have free₄ : ((a₃.giveUp ⟨0, filler 20⟩).giveUp ⟨80, filler 10⟩).free = [⟨0, 32⟩, ⟨80, 4016⟩] := by
    simp only [giveUp, release, free₃]
    decide
  obtain ⟨a₅, next, free₅⟩ := hole.place (filler 100) 80 [⟨0, 32⟩, ⟨192, 3904⟩] (by rw [free₄]; rfl)
  exact ⟨a₅, next, free₅, reached_partitioned next⟩

end EmotionEngine.Arena
