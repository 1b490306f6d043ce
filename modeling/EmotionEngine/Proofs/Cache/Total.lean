import Std.Data.ExtTreeMap

/-!
Sums over tables. What a table holds is added up entry by entry; entering and removing an entry change
the sum by its own share.
-/

namespace EmotionEngine.Cache

open Std (ExtTreeMap)

variable {β : Type}

/-- The sum of `f` over the entries of a table. -/
def total (f : β → Nat) (m : ExtTreeMap Nat β) : Nat := m.toList.foldr (fun p n => f p.2 + n) 0

theorem total_empty (f : β → Nat) : total f ∅ = 0 := by
  have empty : (∅ : ExtTreeMap Nat β).toList = [] := ExtTreeMap.toList_eq_nil_iff.2 rfl
  unfold total
  rw [empty]
  rfl

theorem foldr_add_perm {α : Type} {f : α → Nat} {as bs : List α} (h : as.Perm bs) :
    as.foldr (fun a n => f a + n) 0 = bs.foldr (fun a n => f a + n) 0 := by
  induction h with
  | nil => rfl
  | cons a _ ih => simp only [List.foldr_cons, ih]
  | swap a b as =>
    simp only [List.foldr_cons]
    omega
  | trans _ _ ih ih' => rw [ih, ih']

theorem nodup_toList (m : ExtTreeMap Nat β) : m.toList.Nodup := by
  apply (ExtTreeMap.distinct_keys_toList (t := m)).imp
  intro a b h same
  apply h
  rw [same]
  exact Std.LawfulEqCmp.compare_eq_iff_eq.2 rfl

theorem mem_toList {m : ExtTreeMap Nat β} {p : Nat × β} : p ∈ m.toList ↔ m[p.1]? = some p.2 :=
  ExtTreeMap.mem_toList_iff_getElem?_eq_some (k := p.1) (v := p.2)

theorem getElem?_insert (m : ExtTreeMap Nat β) (k a : Nat) (v : β) :
    (m.insert k v)[a]? = if a = k then some v else m[a]? := by
  rw [ExtTreeMap.getElem?_insert]
  simp only [Std.LawfulEqCmp.compare_eq_iff_eq, eq_comm (a := k)]

theorem getElem?_erase (m : ExtTreeMap Nat β) (k a : Nat) :
    (m.erase k)[a]? = if a = k then none else m[a]? := by
  rw [ExtTreeMap.getElem?_erase]
  simp only [Std.LawfulEqCmp.compare_eq_iff_eq, eq_comm (a := k)]

theorem erase_insert (m : ExtTreeMap Nat β) (k : Nat) (v : β) : (m.insert k v).erase k = m.erase k := by
  apply ExtTreeMap.ext_getElem?
  intro a
  rw [getElem?_erase, getElem?_erase, getElem?_insert]
  split <;> rfl

theorem erase_of_none {m : ExtTreeMap Nat β} {k : Nat} (h : m[k]? = none) : m.erase k = m := by
  apply ExtTreeMap.ext_getElem?
  intro a
  rw [getElem?_erase]
  split
  · next same => rw [same, h]
  · rfl

theorem total_erase (f : β → Nat) {m : ExtTreeMap Nat β} {k : Nat} {v : β} (h : m[k]? = some v) :
    total f m = f v + total f (m.erase k) := by
  have perm : m.toList.Perm ((k, v) :: (m.erase k).toList) := by
    rw [List.perm_ext_iff_of_nodup (nodup_toList m)]
    · intro p
      rw [List.mem_cons, mem_toList, mem_toList, getElem?_erase]
      split
      · next same =>
        rw [same, h]
        constructor
        · intro e
          exact .inl (Prod.ext same (Option.some.inj e).symm)
        · rintro (e | e)
          · rw [e]
          · cases e
      · next other =>
        constructor
        · exact .inr
        · rintro (e | e)
          · exact absurd (congrArg Prod.fst e) other
          · exact e
    · rw [List.nodup_cons]
      refine ⟨?_, nodup_toList _⟩
      rw [mem_toList, getElem?_erase, if_pos rfl]
      exact nofun
  exact foldr_add_perm (f := fun p : Nat × β => f p.2) perm

theorem total_insert (f : β → Nat) (m : ExtTreeMap Nat β) (k : Nat) (v : β) :
    total f (m.insert k v) = f v + total f (m.erase k) := by
  have h : (m.insert k v)[k]? = some v := by rw [getElem?_insert, if_pos rfl]
  rw [total_erase f h, erase_insert]

/-- Replacing an entry by one of the same share changes nothing. -/
theorem total_update (f : β → Nat) {m : ExtTreeMap Nat β} {k : Nat} {v v' : β} (h : m[k]? = some v)
    (same : f v' = f v) : total f (m.insert k v') = total f m := by
  rw [total_insert, total_erase f h, same]

theorem total_insert_new (f : β → Nat) {m : ExtTreeMap Nat β} {k : Nat} (v : β) (h : m[k]? = none) :
    total f (m.insert k v) = f v + total f m := by
  rw [total_insert, erase_of_none h]

/-- Tables whose entries correspond have the same size. -/
theorem size_eq_of_perm {γ : Type} {m : ExtTreeMap Nat β} {n : ExtTreeMap Nat γ} {f : Nat × β → Nat × γ}
    (h : (m.toList.map f).Perm n.toList) : m.size = n.size := by
  rw [← ExtTreeMap.length_toList, ← ExtTreeMap.length_toList, ← h.length_eq, List.length_map]

end EmotionEngine.Cache
