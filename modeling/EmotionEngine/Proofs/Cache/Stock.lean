import EmotionEngine.Cache.Basic
import EmotionEngine.Proofs.Cache.Arena
import EmotionEngine.Proofs.Cache.Total

/-!
The stock of a cache: its arena holds the code of its blocks and the code set aside, and nothing else.
Every byte of the arena is free, or belongs to one piece of code, and the bytes in use are accounted for.
-/

namespace EmotionEngine.Cache

open Std (ExtTreeMap)

/-- The bytes of the arena that a block takes. -/
def Entry.share (e : Entry) : Nat := Arena.footprint e.size

/-- The bytes of the arena that retired code takes. -/
def Retired.share (r : Retired) : Nat := Arena.footprint r.size

/-- How often a block's code has a byte of the arena. -/
def Entry.hits (x : Nat) (e : Entry) : Nat := Arena.hits e.offset (Arena.footprint e.size) x

/-- How often retired code has a byte of the arena. -/
def Retired.hits (x : Nat) (r : Retired) : Nat := Arena.hits r.offset (Arena.footprint r.size) x

/-- An arena holds the code of some blocks and some retired code. -/
structure Stocked (a : Arena) (blocks : ExtTreeMap Nat Entry) (retired : ExtTreeMap Nat Retired) : Prop where
  bytes : a.used = total Entry.share blocks + total Retired.share retired
  filled : Arena.Filled a.free
  room : ∀ x, Arena.cover x a.free + total (Entry.hits x) blocks + total (Retired.hits x) retired =
    if x < a.capacity then 1 else 0

theorem stocked_ofSize (size : Nat) : Stocked (Arena.ofSize size) ∅ ∅ := by
  constructor
  · simp [total_empty, Arena.ofSize]
  · intro r hr
    rw [List.mem_singleton.1 hr]
    simp only [Arena.granule]
    omega
  · intro x
    rw [total_empty, total_empty]
    exact Arena.hits_zero (Arena.ofSize size).capacity x

namespace Stocked

variable {a : Arena} {blocks : ExtTreeMap Nat Entry} {retired : ExtTreeMap Nat Retired} {id : BlockId}

theorem once (h : Stocked a blocks retired) (x : Nat) :
    Arena.cover x a.free + total (Entry.hits x) blocks + total (Retired.hits x) retired ≤ 1 := by
  rw [h.room x]
  split <;> omega

/-- Replacing the entry of a block without moving its code. -/
theorem update (h : Stocked a blocks retired) {e e' : Entry} (held : blocks[id]? = some e)
    (offset : e'.offset = e.offset) (size : e'.size = e.size) :
    Stocked a (blocks.insert id e') retired := by
  refine ⟨?_, h.filled, ?_⟩
  · rw [h.bytes, total_update Entry.share held]
    unfold Entry.share
    rw [size]
  · intro x
    rw [← h.room x, total_update (Entry.hits x) held]
    unfold Entry.hits
    rw [offset, size]

/-- Changing how often retired code is pinned. -/
theorem repin (h : Stocked a blocks retired) {r : Retired} (held : retired[id]? = some r) (pins : Word) :
    Stocked a blocks (retired.insert id { r with pins }) := by
  refine ⟨?_, h.filled, ?_⟩
  · rw [h.bytes, total_update Retired.share held]
    rfl
  · intro x
    rw [← h.room x, total_update (Retired.hits x) held]
    rfl

theorem retire (h : Stocked a blocks retired) {e : Entry} (held : blocks[id]? = some e)
    (none : retired[id]? = none) :
    Stocked a (blocks.erase id)
      (retired.insert id { offset := e.offset, size := e.size, pins := e.pins }) := by
  refine ⟨?_, h.filled, ?_⟩
  · rw [h.bytes, total_erase Entry.share held, total_insert_new Retired.share _ none]
    show e.share + _ + _ = _ + (e.share + _)
    omega
  · intro x
    rw [← h.room x, total_erase (Entry.hits x) held, total_insert_new (Retired.hits x) _ none]
    show _ + _ + (e.hits x + _) = _ + (e.hits x + _) + _
    omega

/-- Giving back a piece of code: what was counted without it is left. -/
theorem give_back (h : Stocked a blocks retired) {blocks' : ExtTreeMap Nat Entry}
    {retired' : ExtTreeMap Nat Retired} (start len : Nat)
    (bytes : total Entry.share blocks + total Retired.share retired =
      Arena.footprint len + (total Entry.share blocks' + total Retired.share retired'))
    (part : ∀ x, total (Entry.hits x) blocks + total (Retired.hits x) retired =
      Arena.hits start (Arena.footprint len) x +
        (total (Entry.hits x) blocks' + total (Retired.hits x) retired')) :
    Stocked (a.release start len) blocks' retired' := by
  have filled : Arena.Filled (a.release start len).free ∧ ∀ x, Arena.cover x (a.release start len).free =
      Arena.hits start (Arena.footprint len) x + Arena.cover x a.free := by
    apply Arena.giveBack_cover (Arena.footprint_pos len) h.filled
    -- The bytes of the piece are counted, so none of them is free.
    intro x
    have once := h.once x
    have here := part x
    dsimp only
    omega
  obtain ⟨filled, cover⟩ := filled
  refine ⟨?_, filled, ?_⟩
  · have used := h.bytes
    simp only [Arena.release]
    omega
  · intro x
    have room := h.room x
    have here := part x
    rw [cover x]
    show _ = if x < a.capacity then 1 else 0
    omega

theorem release (h : Stocked a blocks retired) {e : Entry} (held : blocks[id]? = some e) :
    Stocked (a.release e.offset e.size) (blocks.erase id) retired := by
  apply h.give_back
  · rw [total_erase Entry.share held, Nat.add_assoc]
    rfl
  · intro x
    rw [total_erase (Entry.hits x) held, Nat.add_assoc]
    rfl

theorem unretire (h : Stocked a blocks retired) {r : Retired} (held : retired[id]? = some r) :
    Stocked (a.release r.offset r.size) blocks (retired.erase id) := by
  apply h.give_back
  · rw [total_erase Retired.share held, Nat.add_left_comm]
    rfl
  · intro x
    rw [total_erase (Retired.hits x) held, Nat.add_left_comm]
    rfl

theorem alloc (h : Stocked a blocks retired) {code : List Host.CodeByte} {offset : Nat} {a' : Arena}
    (placed : a.alloc? code = some (offset, a')) {e : Entry} (start : e.offset = offset)
    (size : e.size = code.length) (new : blocks[id]? = none) : Stocked a' (blocks.insert id e) retired := by
  obtain ⟨⟨offset', free⟩, taken, eq⟩ := Option.map_eq_some_iff.1 placed
  cases eq
  obtain ⟨filled, cover⟩ := Arena.takeFirst_cover taken h.filled
  refine ⟨?_, filled, ?_⟩
  · rw [total_insert_new Entry.share _ new]
    have bytes := h.bytes
    have share : e.share = Arena.footprint code.length := by
      unfold Entry.share
      rw [size]
    dsimp only
    omega
  · intro x
    rw [total_insert_new (Entry.hits x) _ new]
    have room := h.room x
    rw [cover x] at room
    have own : e.hits x = Arena.hits offset' (Arena.footprint code.length) x := by
      unfold Entry.hits
      rw [start, size]
    dsimp only
    rw [← room]
    omega

theorem apart_free (h : Stocked a blocks retired) {e : Entry} (held : blocks[id]? = some e) {x : Nat}
    (free : 0 < Arena.cover x a.free) : e.hits x = 0 := by
  have once := h.once x
  rw [total_erase (Entry.hits x) held] at once
  omega

/-- Placing code leaves the code of the blocks as it was, and is there to be read afterwards. -/
theorem alloc_read (h : Stocked a blocks retired) {code : List Host.CodeByte} {offset : Nat} {a' : Arena}
    (placed : a.alloc? code = some (offset, a')) :
    a'.read offset code.length = code ∧ ∀ {id : BlockId} {e : Entry}, blocks[id]? = some e →
      a'.read e.offset e.size = a.read e.offset e.size := by
  obtain ⟨⟨offset', free⟩, taken, eq⟩ := Option.map_eq_some_iff.1 placed
  cases eq
  constructor
  · exact Arena.read_writeCells a offset' code
  · intro id e held
    apply Arena.read_writeCells_of_apart a
    -- A byte of both would be free and in use.
    rintro i hi inside
    have small := Arena.le_footprint e.size
    have small' := Arena.le_footprint code.length
    have cover := (Arena.takeFirst_cover taken h.filled).2 (e.offset + i)
    have new : Arena.hits offset' (Arena.footprint code.length) (e.offset + i) = 1 := if_pos (by omega)
    have own : e.hits (e.offset + i) = 1 := if_pos (by omega)
    have := h.apart_free held (x := e.offset + i) (by omega)
    omega

end Stocked

end EmotionEngine.Cache
