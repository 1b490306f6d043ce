import EmotionEngine.Cache.Arena

/-!
The arena hands out every byte at most once. How often a byte is free is counted range by range; taking an
allocation from the free ranges and giving one back, joined with its neighbours, change the count by the
bytes of the allocation and by nothing else. So as long as the free ranges and the allocations together
count no byte twice, code that is placed is not touched by later allocations.
-/

namespace EmotionEngine.Arena

open Host (CodeByte)

/-- How often a run of bytes has a byte. -/
def hits (start size x : Nat) : Nat := if start ≤ x ∧ x < start + size then 1 else 0

/-- How often some ranges have a byte. -/
def cover (x : Nat) (ranges : List FreeRange) : Nat :=
  ranges.foldr (fun r n => hits r.start r.size x + n) 0

/-- No range is empty. -/
def Filled (ranges : List FreeRange) : Prop := ∀ r ∈ ranges, 0 < r.size

@[simp] theorem cover_nil (x : Nat) : cover x [] = 0 := rfl

@[simp] theorem cover_cons (x : Nat) (r : FreeRange) (ranges : List FreeRange) :
    cover x (r :: ranges) = hits r.start r.size x + cover x ranges := rfl

theorem hits_add (start m n x : Nat) :
    hits start (m + n) x = hits start m x + hits (start + m) n x := by
  unfold hits
  split <;> split <;> split <;> omega

theorem hits_zero (size x : Nat) : hits 0 size x = if x < size then 1 else 0 := by
  unfold hits
  by_cases inside : x < size
  · rw [if_pos inside, if_pos (by omega)]
  · rw [if_neg inside, if_neg (by omega)]

theorem hits_start {start size : Nat} (h : 0 < size) : hits start size start = 1 := by
  unfold hits
  rw [if_pos]
  omega

theorem hits_le_cover {r : FreeRange} {ranges : List FreeRange} (mem : r ∈ ranges) (x : Nat) :
    hits r.start r.size x ≤ cover x ranges := by
  induction ranges with
  | nil => cases mem
  | cons s ranges ih =>
    rw [cover_cons]
    rcases List.mem_cons.1 mem with rfl | mem
    · omega
    · have := ih mem
      omega

/-! ## Taking -/

theorem takeFirst_cover {need start : Nat} {ranges rest : List FreeRange}
    (h : takeFirst need ranges = some (start, rest)) (filled : Filled ranges) :
    Filled rest ∧ ∀ x, cover x ranges = hits start need x + cover x rest := by
  induction ranges generalizing rest with
  | nil => cases h
  | cons r ranges ih =>
    have filled' : Filled ranges := fun s hs => filled s (List.mem_cons_of_mem _ hs)
    unfold takeFirst at h
    split at h
    · next fits =>
      cases h
      have split (x : Nat) : hits r.start r.size x =
          hits r.start need x + hits (r.start + need) (r.size - need) x := by
        rw [← hits_add, Nat.add_sub_cancel' fits]
      split
      · refine ⟨?_, ?_⟩
        · intro s hs
          rcases List.mem_cons.1 hs with rfl | hs
          · dsimp only
            omega
          · exact filled' s hs
        · intro x
          rw [cover_cons, cover_cons, split]
          dsimp only
          omega
      · next exact_ =>
        have same : need = r.size := by omega
        refine ⟨filled', fun x => ?_⟩
        rw [cover_cons, same]
    · obtain ⟨⟨start', rest'⟩, taken, e⟩ := Option.map_eq_some_iff.1 h
      cases e
      obtain ⟨filled'', covers⟩ := ih taken filled'
      refine ⟨?_, ?_⟩
      · intro s hs
        rcases List.mem_cons.1 hs with rfl | hs
        · exact filled _ List.mem_cons_self
        · exact filled'' s hs
      · intro x
        rw [cover_cons, cover_cons, covers]
        dsimp only
        omega

/-! ## Giving back -/

/-- Taking one of some ranges away, where no two start at the same byte. -/
theorem dropRange_cover {r : FreeRange} {ranges : List FreeRange} (mem : r ∈ ranges)
    (filled : Filled ranges) (once : ∀ x, cover x ranges ≤ 1) (x : Nat) :
    cover x ranges = hits r.start r.size x + cover x (dropRange r.start ranges) := by
  induction ranges with
  | nil => cases mem
  | cons s ranges ih =>
    have filled' : Filled ranges := fun t ht => filled t (List.mem_cons_of_mem _ ht)
    have once' (y : Nat) : cover y ranges ≤ 1 := by
      have := once y
      rw [cover_cons] at this
      omega
    have first := once s.start
    rw [cover_cons, hits_start (filled s List.mem_cons_self)] at first
    -- No later range starts where the first one does.
    have other (t : FreeRange) (ht : t ∈ ranges) : t.start ≠ s.start := by
      intro same
      have := hits_le_cover ht s.start
      rw [← same, hits_start (filled' t ht)] at this
      rw [← same] at first
      omega
    unfold dropRange at ih ⊢
    rcases List.mem_cons.1 mem with rfl | mem
    · have all : ranges.filter (fun t => t.start ≠ r.start) = ranges := by
        rw [List.filter_eq_self]
        intro t ht
        simpa using other t ht
      rw [List.filter_cons, if_neg (by simp), all, cover_cons]
    · rw [List.filter_cons, if_pos (by simpa using (other r mem).symm), cover_cons, cover_cons,
        ih mem filled' once']
      omega

theorem putRange_cover {new : FreeRange} {ranges : List FreeRange}
    (other : ∀ r ∈ ranges, r.start ≠ new.start) (x : Nat) :
    cover x (putRange new ranges) = hits new.start new.size x + cover x ranges := by
  induction ranges with
  | nil => rfl
  | cons r ranges ih =>
    unfold putRange
    split
    · rfl
    · rw [if_neg (Ne.symm (other r List.mem_cons_self)), cover_cons,
        ih (fun s hs => other s (List.mem_cons_of_mem _ hs)), cover_cons]
      omega

theorem mem_putRange {new r : FreeRange} {ranges : List FreeRange} (h : r ∈ putRange new ranges) :
    r = new ∨ r ∈ ranges := by
  induction ranges with
  | nil => exact .inl (List.mem_singleton.1 h)
  | cons s ranges ih =>
    unfold putRange at h
    split at h
    · exact List.mem_cons.1 h
    · split at h
      · rcases List.mem_cons.1 h with rfl | h
        · exact .inl rfl
        · exact .inr (List.mem_cons_of_mem _ h)
      · rcases List.mem_cons.1 h with rfl | h
        · exact .inr List.mem_cons_self
        · rcases ih h with own | old
          · exact .inl own
          · exact .inr (List.mem_cons_of_mem _ old)

theorem Filled.drop {ranges : List FreeRange} (filled : Filled ranges) (start : Nat) :
    Filled (dropRange start ranges) := fun r hr => filled r (List.mem_filter.1 hr).1

/-- A range and others from which it is to be kept apart: together they count the bytes of `range` and
`ranges`, each once at most. -/
structure Joined (range : FreeRange) (ranges : List FreeRange) (p : FreeRange × List FreeRange) : Prop where
  positive : 0 < p.1.size
  filled : Filled p.2
  covers : ∀ x, hits p.1.start p.1.size x + cover x p.2 =
    hits range.start range.size x + cover x ranges

section
variable {range : FreeRange} {ranges : List FreeRange} (positive : 0 < range.size) (filled : Filled ranges)
  (once : ∀ x, hits range.start range.size x + cover x ranges ≤ 1)
include positive filled once

theorem joinBefore_joined :
    Joined range ranges (joinBefore range ranges) ∧
      (joinBefore range ranges).1.start + (joinBefore range ranges).1.size = range.start + range.size := by
  unfold joinBefore
  split
  · next p before =>
    split
    · next adjacent =>
      have mem : p ∈ ranges := (List.mem_filter.1 (List.mem_of_getLast? before)).1
      have once' (x : Nat) : cover x ranges ≤ 1 := by
        have := once x
        omega
      refine ⟨⟨?_, filled.drop _, ?_⟩, ?_⟩
      · dsimp only
        omega
      · intro x
        dsimp only
        rw [dropRange_cover mem filled once' x, Nat.add_comm range.size, hits_add, adjacent]
        omega
      · dsimp only
        omega
    · exact ⟨⟨positive, filled, fun _ => rfl⟩, rfl⟩
  · exact ⟨⟨positive, filled, fun _ => rfl⟩, rfl⟩

theorem joinAfter_joined :
    Joined range ranges (joinAfter (range.start + range.size) range ranges) := by
  unfold joinAfter
  split
  · next n after =>
    have mem : n ∈ ranges := List.mem_of_find?_eq_some after
    have adjacent : n.start = range.start + range.size := by simpa using List.find?_some after
    have once' (x : Nat) : cover x ranges ≤ 1 := by
      have := once x
      omega
    refine ⟨?_, filled.drop _, ?_⟩
    · dsimp only
      omega
    · intro x
      dsimp only
      rw [dropRange_cover mem filled once' x, hits_add, adjacent]
      omega
  · exact ⟨positive, filled, fun _ => rfl⟩

/-- A range that is given back is free again, and nothing else changes. -/
theorem giveBack_cover :
    Filled (giveBack range ranges) ∧
      ∀ x, cover x (giveBack range ranges) = hits range.start range.size x + cover x ranges := by
  obtain ⟨before, stop⟩ := joinBefore_joined positive filled once
  unfold giveBack
  generalize joinBefore range ranges = p at before stop
  obtain ⟨new, ranges'⟩ := p
  dsimp only at stop ⊢
  rw [← stop]
  have once' (x : Nat) : hits new.start new.size x + cover x ranges' ≤ 1 := by
    rw [before.covers x]
    exact once x
  have after := joinAfter_joined before.positive before.filled once'
  dsimp only at after
  generalize joinAfter (new.start + new.size) new ranges' = q at after
  obtain ⟨new', ranges''⟩ := q
  have covers (x : Nat) : hits new'.start new'.size x + cover x ranges'' =
      hits range.start range.size x + cover x ranges := (after.covers x).trans (before.covers x)
  dsimp only
  constructor
  · intro r hr
    rcases mem_putRange hr with rfl | old
    · exact after.positive
    · exact after.filled r old
  · intro x
    rw [putRange_cover, covers]
    intro r hr same
    have twice := once new'.start
    rw [← covers, hits_start after.positive] at twice
    have := hits_le_cover hr new'.start
    rw [← same, hits_start (after.filled r hr)] at this
    rw [← same] at twice
    omega

end

/-! ## Code in the arena -/

theorem getD_writeCells (cells : Std.ExtTreeMap Nat CodeByte) (pos : Nat) (code : List CodeByte) (q : Nat) :
    (writeCells cells pos code).getD q default =
      if pos ≤ q ∧ q < pos + code.length then code.getD (q - pos) default else cells.getD q default := by
  induction code generalizing cells pos with
  | nil =>
    rw [if_neg (by simp only [List.length_nil]; omega)]
    rfl
  | cons b code ih =>
    rw [writeCells, ih, Std.ExtTreeMap.getD_insert]
    simp only [Std.LawfulEqCmp.compare_eq_iff_eq, List.length_cons]
    by_cases own : pos = q
    · subst own
      rw [if_neg (by omega), if_pos rfl, if_pos (by omega), Nat.sub_self]
      rfl
    · rw [if_neg own]
      by_cases inside : pos + 1 ≤ q ∧ q < pos + 1 + code.length
      · rw [if_pos inside, if_pos (by omega), show q - pos = q - (pos + 1) + 1 from by omega]
        rfl
      · rw [if_neg inside, if_neg (by omega)]

theorem read_writeCells (a : Arena) (start : Nat) (code : List CodeByte) :
    { a with cells := writeCells a.cells start code }.read start code.length = code := by
  unfold read
  apply List.ext_getElem
  · simp
  · intro i h h'
    simp only [List.getElem_map, List.getElem_range]
    rw [getD_writeCells, if_pos (by omega), Nat.add_sub_cancel_left, List.getD_eq_getElem?_getD,
      List.getElem?_eq_getElem h', Option.getD_some]

theorem read_writeCells_of_apart (a : Arena) {start start' len : Nat} {code : List CodeByte}
    (apart : ∀ i < len, ¬(start ≤ start' + i ∧ start' + i < start + code.length)) :
    { a with cells := writeCells a.cells start code }.read start' len = a.read start' len := by
  unfold read
  apply List.map_congr_left
  intro i hi
  rw [getD_writeCells, if_neg (apart i (List.mem_range.1 hi))]

end EmotionEngine.Arena
