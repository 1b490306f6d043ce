import EmotionEngine.Code.Draft
import EmotionEngine.Proofs.Code.Jumps
import EmotionEngine.Proofs.Code.Link
import Mathlib.Data.BitVec

/-!
Layout in one pass gives the same code as layout that knows everything beforehand, behind whatever the buffer holds.

1. Patching a word leaves all other bytes alone (`CodeByte.patchWord?_stays`).
2. Going through a body, a draft gets a label for each of its jumps (`Draft.body_eq`); with the paths each label gets
   its place (`Draft.placeAll_eq`), so no label is in use without one; and the patches turn the blank jumps into the
   linked ones (`patchAll_exits`).
3. Neither the body nor the paths have jumps other than these (`linked_jump`), so each jump in the code leads to its
   path (`lands`), and the patches leave everything between the displacements alone (`resolve_stays`).

Main statement: `Code.emit_exact`.
-/

namespace EmotionEngine

open Host (CodeByte Cond Names)

/-! ## Patches -/

namespace Host.CodeByte

theorem patchWord?_field {field : List CodeByte} (size : field.length = 4) (front back : List CodeByte) (w : Word) :
    patchWord? (front ++ (field ++ back)) front.length w = some (front ++ (ofWord w ++ back)) := by
  have behind : (front ++ (field ++ back)).drop (front.length + 4) = back := by
    rw [← size, ← List.length_append, ← List.append_assoc, List.drop_left]
  unfold patchWord?
  rw [if_pos (by simp only [List.length_append]; omega), List.take_left, behind, List.append_assoc]

/-- A patch changes the four bytes of its word at most. -/
theorem patchWord?_stays {code code' : List CodeByte} {pos : Nat} {w : Word}
    (patched : patchWord? code pos w = some code') :
    code'.length = code.length ∧ ∀ k, k < pos ∨ pos + 4 ≤ k → code'[k]? = code[k]? := by
  unfold patchWord? at patched
  split at patched
  · next inside =>
    obtain rfl := Option.some.inj patched
    have front : (code.take pos).length = pos := by
      rw [List.length_take]
      omega
    refine ⟨?_, fun k apart => ?_⟩
    · simp only [List.length_append, front, length_ofWord, List.length_drop]
      omega
    · rw [List.append_assoc]
      obtain ahead | behind := apart
      · rw [List.getElem?_append_left (by omega), List.getElem?_take_of_lt ahead]
      · rw [List.getElem?_append_right (by omega), front,
          List.getElem?_append_right (by rw [length_ofWord]; omega), length_ofWord, List.getElem?_drop]
        congr 1
        omega
  · cases patched

theorem readWord?_field (front back : List CodeByte) (w : Word) :
    readWord? (front ++ (ofWord w ++ back)) front.length = some w := by
  have known (bs : List Byte) : (ofBytes bs).mapM value? = some bs := by
    induction bs with
    | nil => rfl
    | cons b rest ih =>
      rw [ofBytes, List.map_cons, List.mapM_cons, show rest.map lit = ofBytes rest from rfl, ih]
      rfl
  unfold readWord?
  rw [if_pos (by simp only [List.length_append, length_ofWord]; omega), List.drop_left,
    List.take_left' (length_ofWord w), ofWord, known, Option.map_some, ofLeBytes_word]

end Host.CodeByte

namespace Code

/-! ## Jumps -/

/-- The bytes of a jump before its displacement. -/
def Item.opcode : Option Cond → List CodeByte
  | some c => CodeByte.ofBytes ((Host.Insn.op0F (0x80 + c.code) false).encode 0 0)
  | none => CodeByte.ofBytes [0xE9]

theorem encode_jump (cond : Option Cond) (rel : Word) :
    (Item.jump cond rel).encode = Item.opcode cond ++ CodeByte.ofWord rel := by
  cases cond with
  | none => rfl
  | some c =>
    simp [Item.jump, Item.opcode, Host.Insn.encode, Host.Insn.bytes, Host.Insn.helper?, CodeByte.ofBytes,
      CodeByte.ofWord]

/-- A piece with a displacement of zero. -/
def Item.blank : Item → Host.Insn
  | .insn i => i
  | .leave cond _ => Item.jump cond 0

/-- The jumps of a body that starts at an offset: where their displacements are, and their paths. -/
def exits : Nat → List Item → List (Nat × List Host.Insn)
  | _, [] => []
  | pos, .insn i :: rest => exits (pos + i.size) rest
  | pos, item@(.leave _ path) :: rest => (pos + item.size - 4, path) :: exits (pos + item.size) rest

theorem length_blank (items : List Item) : (encode (items.map Item.blank)).length = bodySize items := by
  induction items with
  | nil => rfl
  | cons item rest ih =>
    rw [List.map_cons, encode_cons, List.length_append, ih]
    cases item <;> rfl

theorem paths_exits (pos : Nat) (items : List Item) :
    (exits pos items).flatMap Prod.snd = items.flatMap Item.path := by
  induction items generalizing pos with
  | nil => rfl
  | cons item rest ih =>
    cases item with
    | insn i => exact ih _
    | leave cond path => exact congrArg (path ++ ·) (ih _)

/-! ## Drafts -/

namespace Draft

theorem item_leave (d : Draft) (cond : Option Cond) (path : List Host.Insn) :
    d.item (.leave cond path) = .ok
      { code := d.code ++ encode [Item.jump cond 0]
        labels := d.labels ++ [{ uses := [d.code.length + (Item.leave cond path).size - 4] }]
        paths := d.paths ++ [(path, d.labels.length)] } := by
  have size : (encode [Item.jump cond 0]).length = (Item.leave cond path).size := by
    rw [encode_cons]
    exact congrArg List.length (List.append_nil _)
  simp only [item, detour, jumpTo, write, change, List.getElem?_concat_length,
    List.set_append_right _ _ (Nat.le_refl _), Nat.sub_self, List.set_cons_zero, List.nil_append,
    List.length_append, size]

/-- Every jump of a body gets a label, which waits for its path. -/
theorem body_eq (d : Draft) (items : List Item) :
    d.body items = .ok
      { code := d.code ++ encode (items.map Item.blank)
        labels := d.labels ++ (exits d.code.length items).map fun jump => { uses := [jump.1] }
        paths := d.paths ++ ((exits d.code.length items).map Prod.snd).zipIdx d.labels.length } := by
  induction items generalizing d with
  | nil => simp [body, exits, encode]
  | cons item rest ih =>
    have code (i : Host.Insn) : encode [i] = i.encode := List.append_nil _
    cases item with
    | insn i =>
      show (d.write [i]).body rest = _
      rw [ih]
      simp only [write, List.map_cons, Item.blank, exits, encode_cons, code, List.append_assoc, List.length_append]
      rfl
    | leave cond path =>
      unfold body
      rw [item_leave]
      dsimp only
      rw [ih]
      simp only [List.map_cons, Item.blank, exits, encode_cons, code, List.append_assoc, List.singleton_append,
        List.length_append, List.length_singleton, List.zipIdx_cons]
      rfl

end Draft

/-- The labels of jumps whose paths are put down one after another from an offset on. -/
def placed : Nat → List (Nat × List Host.Insn) → List Label
  | _, [] => []
  | out, (use, path) :: rest => { place := some out, uses := [use] } :: placed (out + (encode path).length) rest

def displacements : Nat → List (Nat × List Host.Insn) → List (Nat × Word)
  | _, [] => []
  | out, (use, path) :: rest =>
    (use, BitVec.ofInt 32 ((out : Int) - (use + 4))) :: displacements (out + (encode path).length) rest

/-- Each path is put down at its label. -/
theorem Draft.placeAll_eq (d : Draft) {front : List Label} {jumps : List (Nat × List Host.Insn)}
    (labels : d.labels = front ++ jumps.map fun jump => { uses := [jump.1] }) :
    d.placeAll ((jumps.map Prod.snd).zipIdx front.length) = .ok
      { d with
        code := d.code ++ encode (jumps.flatMap Prod.snd)
        labels := front ++ placed d.code.length jumps } := by
  induction jumps generalizing d front with
  | nil =>
    rw [List.map_nil, List.append_nil] at labels
    simp [placeAll, placed, encode, ← labels]
  | cons jump rest ih =>
    obtain ⟨use, path⟩ := jump
    let front' := front ++ [{ place := some d.code.length, uses := [use] }]
    let d' : Draft :=
      { d with
        code := d.code ++ encode path
        labels := front' ++ rest.map fun jump => { uses := [jump.1] } }
    have here : d.place path front.length = .ok d' := by
      simp [place, change, write, labels, d', front']
    have later : d'.placeAll ((rest.map Prod.snd).zipIdx front'.length) = _ := ih d' rfl
    have size : front'.length = front.length + 1 := List.length_append
    rw [size] at later
    rw [List.map_cons, List.zipIdx_cons]
    unfold placeAll
    rw [here]
    dsimp only
    rw [later]
    simp [placed, encode_append, d', front']

theorem patches_placed (start : Word) (number out : Nat) (jumps : List (Nat × List Host.Insn)) :
    patches start number (placed out jumps) = .ok (displacements out jumps) := by
  induction jumps generalizing number out with
  | nil => rfl
  | cons jump rest ih =>
    unfold placed patches
    rw [ih]
    rfl

/-! ## Patched code -/

theorem displacement_eq (out next : Nat) :
    BitVec.ofInt 32 ((out : Int) - next) = BitVec.ofNat 32 out - BitVec.ofNat 32 next := by
  apply BitVec.eq_of_toNat_eq
  rw [BitVec.toNat_ofInt, BitVec.toNat_sub, BitVec.toNat_ofNat, BitVec.toNat_ofNat]
  omega

/-- The patches make the jumps of a body the linked ones. -/
theorem patchAll_exits (items : List Item) (front tail : List CodeByte) (out : Nat) :
    patchAll (front ++ (encode (items.map Item.blank) ++ tail)) (displacements out (exits front.length items)) =
      .ok (front ++ (encode (link front.length out items) ++ tail)) := by
  induction items generalizing front out with
  | nil => rfl
  | cons item rest ih =>
    cases item with
    | insn i =>
      have later := ih (front ++ i.encode) out
      rw [List.length_append, show i.encode.length = i.size from rfl] at later
      simpa only [List.map_cons, Item.blank, exits, link, encode_cons, List.append_assoc] using later
    | leave cond path =>
      let next := front.length + (Item.leave cond path).size
      let rel := BitVec.ofNat 32 out - BitVec.ofNat 32 next
      let opened := front ++ Item.opcode cond
      have size : opened.length + 4 = next := by
        show (front ++ Item.opcode cond).length + 4 = front.length + (Item.jump cond 0).encode.length
        rw [encode_jump, List.length_append, List.length_append, CodeByte.length_ofWord, Nat.add_assoc]
      have use : front.length + (Item.leave cond path).size - 4 = opened.length := by
        show next - 4 = _
        omega
      have word : BitVec.ofInt 32 ((out : Int) - ((opened.length : Int) + 4)) = rel := by
        rw [show ((opened.length : Int) + 4) = (next : Int) by omega, displacement_eq]
      have blank : front ++ (encode ((Item.leave cond path :: rest).map Item.blank) ++ tail) =
          opened ++ (CodeByte.ofWord 0 ++ (encode (rest.map Item.blank) ++ tail)) := by
        simp only [List.map_cons, Item.blank, encode_cons, encode_jump, List.append_assoc, opened]
      have filled : opened ++ (CodeByte.ofWord rel ++ (encode (rest.map Item.blank) ++ tail)) =
          (front ++ (Item.jump cond rel).encode) ++ (encode (rest.map Item.blank) ++ tail) := by
        simp only [encode_jump, List.append_assoc, opened]
      have later := ih (front ++ (Item.jump cond rel).encode) (out + (encode path).length)
      rw [List.length_append, length_jump, List.append_assoc front] at later
      simp only [exits, displacements, use, word]
      unfold patchAll
      rw [blank, CodeByte.patchWord?_field (CodeByte.length_ofWord 0)]
      dsimp only
      rw [filled, List.append_assoc front]
      refine later.trans ?_
      simp only [link, encode_cons, List.append_assoc]
      rfl

theorem link_add (shift pos out : Nat) (items : List Item) :
    link (shift + pos) (shift + out) items = link pos out items := by
  induction items generalizing pos out with
  | nil => rfl
  | cons item rest ih =>
    cases item with
    | insn i =>
      have later := ih (pos + i.size) out
      rw [← Nat.add_assoc] at later
      simp only [link, later]
    | leave cond path =>
      have later := ih (pos + (Item.leave cond path).size) (out + (encode path).length)
      rw [← Nat.add_assoc, ← Nat.add_assoc] at later
      have same : BitVec.ofNat 32 (shift + out) - BitVec.ofNat 32 (shift + pos + (Item.leave cond path).size) =
          BitVec.ofNat 32 out - BitVec.ofNat 32 (pos + (Item.leave cond path).size) := by
        rw [Nat.add_assoc, BitVec.ofNat_add, BitVec.ofNat_add shift (_ + _), add_sub_add_left_eq_sub]
      simp only [link, later, same]

theorem draft_eq (before : List CodeByte) (items : List Item) :
    draft before items = .ok
      { code := before ++ (encode (items.map Item.blank) ++ encode (items.flatMap Item.path))
        labels := placed (before.length + bodySize items) (exits before.length items) } := by
  unfold draft
  rw [Draft.body_eq]
  dsimp only
  rw [List.nil_append, List.nil_append, List.length_nil]
  let d : Draft :=
    { code := before ++ encode (items.map Item.blank)
      labels := (exits before.length items).map fun jump => { uses := [jump.1] } }
  have put : d.placeAll (((exits before.length items).map Prod.snd).zipIdx 0) = _ :=
    @Draft.placeAll_eq d [] _ rfl
  have size : d.code.length = before.length + bodySize items := by
    show (before ++ encode (items.map Item.blank)).length = _
    rw [List.length_append, length_blank]
  rw [size, paths_exits, List.nil_append, List.append_assoc] at put
  exact put

theorem layOut_eq (start : Word) (before : List CodeByte) (items : List Item) :
    layOut start before items = .ok (before ++ assemble items) := by
  unfold layOut
  rw [draft_eq]
  dsimp only [Draft.resolve]
  rw [patches_placed]
  dsimp only
  rw [patchAll_exits]
  have linked := link_add before.length 0 (bodySize items) items
  rw [Nat.add_zero] at linked
  rw [linked]
  rfl

section
variable {ρ : Type} [Names ρ]

theorem emit_eq (before : List CodeByte) (b : Block) (p : Plan ρ) :
    emit before b p = ((ofBlock b p).map (before ++ ·)).mapError .compile := by
  unfold emit ofBlock
  split
  · rfl
  · cases missing? b p with
    | some e => rfl
    | none => exact layOut_eq _ _ _

/-- A block can be laid out if its plan has a step for each instruction and places every operand. -/
theorem emit_ok_iff (before : List CodeByte) (b : Block) (p : Plan ρ) :
    (∃ out, emit before b p = .ok out) ↔ p.steps.length = b.insns.length ∧ missing? b p = none := by
  unfold emit
  split
  · next differ => exact ⟨nofun, fun fits => absurd fits.1 differ⟩
  · next same =>
    cases missing? b p with
    | some e => exact ⟨nofun, nofun⟩
    | none => exact ⟨fun _ => ⟨not_not.mp same, rfl⟩, fun _ => ⟨_, layOut_eq _ _ _⟩⟩

end

/-! ## Where jumps lead -/

def linked (items : List Item) : List Host.Insn := link 0 (bodySize items) items ++ items.flatMap Item.path

/-- Where the instruction at an index ends, if the first one starts at `base`. -/
def endOf (base : Nat) (is : List Host.Insn) (n : Nat) : Nat := base + (encode (is.take (n + 1))).length

/-- Where the path of the piece at an index starts, if the body starts at `base`. -/
def pathOf (base : Nat) (items : List Item) (n : Nat) : Nat :=
  base + (bodySize items + (encode ((items.take n).flatMap Item.path)).length)

/-- A jump over `rel` that ends at `next` leads to the first byte of its path, which lies ahead in the code. -/
structure Lands (code : List CodeByte) (next : Nat) (rel : Word) (place : Nat) (path : List Host.Insn) : Prop where
  displacement : CodeByte.readWord? code (next - 4) = some rel
  target : (place : Int) = next + rel.toInt
  ahead : next ≤ place
  there : encode path <+: code.drop place
  nonempty : encode path ≠ []

/-- A byte of the displacement of one of the jumps, if the first instruction starts at `base`. -/
def InDisplacement (base : Nat) (is : List Host.Insn) (k : Nat) : Prop :=
  ∃ n j, is[n]? = some j ∧ j.isJump = true ∧ endOf base is n ≤ k + 4 ∧ k < endOf base is n

/-- The instructions of a block, in the order of their bytes. -/
def insns {ρ : Type} [Names ρ] (b : Block) (p : Plan ρ) : List Host.Insn := linked (body b p)

theorem isJump_jump (cond : Option Cond) (rel : Word) : (Item.jump cond rel).isJump = true := by
  cases cond <;> rfl

/-- A piece in linked code, where a jump ends at `next` and its path starts at `place`. -/
def Item.linked (next place : Nat) : Item → Host.Insn
  | .insn i => i
  | .leave cond _ => Item.jump cond (BitVec.ofNat 32 place - BitVec.ofNat 32 next)

theorem encode_linked (items : List Item) : encode (linked items) = assemble items :=
  encode_append _ _

theorem count_link (pos out : Nat) (items : List Item) : (link pos out items).length = items.length := by
  induction items generalizing pos out with
  | nil => rfl
  | cons item rest ih => cases item <;> exact congrArg (· + 1) (ih _ _)

theorem bodySize_append (items items' : List Item) :
    bodySize (items ++ items') = bodySize items + bodySize items' := by
  induction items with
  | nil => exact (Nat.zero_add _).symm
  | cons item rest ih =>
    show item.size + bodySize (rest ++ items') = item.size + bodySize rest + bodySize items'
    rw [ih, Nat.add_assoc]

theorem link_take (pos out : Nat) (items : List Item) (n : Nat) :
    (link pos out items).take n = link pos out (items.take n) := by
  induction items generalizing pos out n with
  | nil => simp [link]
  | cons item rest ih =>
    cases n with
    | zero => rfl
    | succ n => cases item <;> exact congrArg (_ :: ·) (ih _ _ n)

theorem link_getElem? (pos out : Nat) (items : List Item) (n : Nat) :
    (link pos out items)[n]? =
      items[n]?.map (Item.linked (pos + bodySize (items.take (n + 1)))
        (out + (encode ((items.take n).flatMap Item.path)).length)) := by
  induction items generalizing pos out n with
  | nil => rfl
  | cons item rest ih =>
    cases n with
    | zero => cases item <;> rfl
    | succ n =>
      cases item with
      | insn i =>
        have later := ih (pos + i.size) out n
        rw [Nat.add_assoc] at later
        exact later
      | leave cond path =>
        have paths : encode (((Item.leave cond path :: rest).take (n + 1)).flatMap Item.path) =
            encode path ++ encode ((rest.take n).flatMap Item.path) := encode_append path _
        have later := ih (pos + (Item.leave cond path).size) (out + (encode path).length) n
        rw [Nat.add_assoc, Nat.add_assoc] at later
        rw [paths, List.length_append]
        exact later

theorem linked_piece {items : List Item} {n : Nat} {item : Item} (piece : items[n]? = some item) :
    (linked items)[n]? = some (item.linked (bodySize (items.take (n + 1))) (pathOf 0 items n)) := by
  have inside := (List.getElem?_eq_some_iff.mp piece).1
  rw [linked, List.getElem?_append_left (by rwa [count_link]), link_getElem?, piece, Option.map_some, Nat.zero_add,
    pathOf, Nat.zero_add]

/-- A jump among the linked instructions is that of a piece that leaves. -/
theorem linked_jump {items : List Item} (straight : direct items = true) {n : Nat} {j : Host.Insn}
    (at_n : (linked items)[n]? = some j) (jump : j.isJump = true) :
    ∃ cond path, items[n]? = some (.leave cond path) ∧
      j = Item.linked (bodySize (items.take (n + 1))) (pathOf 0 items n) (.leave cond path) := by
  have each (item) (mem : item ∈ items) : item.direct = true := List.all_eq_true.mp straight item mem
  by_cases inside : n < items.length
  · have piece := List.getElem?_eq_getElem inside
    have mem := each _ (List.getElem_mem inside)
    rw [linked_piece piece] at at_n
    obtain rfl := Option.some.inj at_n
    cases kind : items[n] with
    | insn i =>
      rw [kind] at mem jump
      rw [direct_insn, show i.isJump = true from jump] at mem
      cases mem
    | leave cond path => exact ⟨cond, path, piece.trans (congrArg some kind), rfl⟩
  · -- The paths are without jumps.
    rw [linked, List.getElem?_append_right (by rw [count_link]; omega)] at at_n
    obtain ⟨item, mem, onPath⟩ := List.mem_flatMap.mp (List.mem_of_getElem? at_n)
    have here := each item mem
    cases item with
    | insn i => cases onPath
    | leave cond path =>
      rw [Item.direct, Bool.and_eq_true] at here
      have none := List.all_eq_true.mp here.1 j onPath
      rw [jump] at none
      cases none

/-- Where a piece of the body ends among the linked instructions. -/
theorem endOf_linked (base : Nat) {items : List Item} {n : Nat} (inside : n < items.length) :
    endOf base (linked items) n = base + bodySize (items.take (n + 1)) := by
  rw [endOf, linked, List.take_append_of_le_length (by rw [count_link]; omega), link_take, length_link]

/-- The path of a piece is between those of the pieces before it and those of the pieces behind it. -/
theorem paths_around {items : List Item} {n : Nat} {item : Item} (piece : items[n]? = some item) :
    items.flatMap Item.path =
      (items.take n).flatMap Item.path ++ (item.path ++ (items.drop (n + 1)).flatMap Item.path) := by
  obtain ⟨inside, rfl⟩ := List.getElem?_eq_some_iff.mp piece
  rw [← List.flatMap_cons, ← List.drop_eq_getElem_cons, ← List.flatMap_append, List.take_append_drop]

theorem distance {next place : Nat} (ahead : next ≤ place) (near : place - next < 2 ^ 31) :
    (place : Int) = next + (BitVec.ofNat 32 place - BitVec.ofNat 32 next : Word).toInt := by
  have value : (BitVec.ofNat 32 place - BitVec.ofNat 32 next : Word).toNat = place - next := by
    rw [BitVec.toNat_sub, BitVec.toNat_ofNat, BitVec.toNat_ofNat]
    omega
  rw [BitVec.toInt_eq_toNat_cond, value, if_pos (by omega)]
  omega

theorem length_assemble (items : List Item) :
    (assemble items).length = bodySize items + (encode (items.flatMap Item.path)).length := by
  rw [assemble, List.length_append, length_link]

theorem readWord?_jump (before : List CodeByte) {is : List Host.Insn} {n : Nat} {cond : Option Cond} {rel : Word}
    (jump : is[n]? = some (Item.jump cond rel)) :
    CodeByte.readWord? (before ++ encode is) (endOf before.length is n - 4) = some rel := by
  let front := before ++ (encode (is.take n) ++ Item.opcode cond)
  have upTo : encode (is.take (n + 1)) = encode (is.take n) ++ (Item.opcode cond ++ CodeByte.ofWord rel) := by
    rw [List.take_add_one, jump, Option.toList_some, encode_append, ← encode_jump]
    exact congrArg (_ ++ ·) (List.append_nil _)
  have ends : endOf before.length is n - 4 = front.length := by
    simp only [endOf, upTo, front, List.length_append, CodeByte.length_ofWord]
    omega
  have code : before ++ encode is = front ++ (CodeByte.ofWord rel ++ encode (is.drop (n + 1))) := by
    conv_lhs => rw [← List.take_append_drop (n + 1) is, encode_append, upTo]
    simp only [front, List.append_assoc]
  rw [ends, code]
  exact CodeByte.readWord?_field front _ rel

theorem path_there (before : List CodeByte) {items : List Item} {n : Nat} {cond : Option Cond}
    {path : List Host.Insn} (piece : items[n]? = some (.leave cond path)) :
    encode path <+: (before ++ assemble items).drop (pathOf before.length items n) := by
  let ahead := before ++ (encode (link 0 (bodySize items) items) ++ encode ((items.take n).flatMap Item.path))
  have code : before ++ assemble items =
      ahead ++ (encode path ++ encode ((items.drop (n + 1)).flatMap Item.path)) := by
    rw [assemble, paths_around piece, encode_append, encode_append]
    simp only [ahead, List.append_assoc, Item.path]
  have place : pathOf before.length items n = ahead.length := by
    simp only [pathOf, ahead, List.length_append, length_link]
  rw [code, place, List.drop_left]
  exact List.prefix_append _ _

theorem path_nonempty {cond : Option Cond} {path : List Host.Insn} (straight : (Item.leave cond path).direct = true) :
    encode path ≠ [] := by
  intro empty
  rw [Item.direct, Bool.and_eq_true] at straight
  have mem : Host.Insn.ret ∈ path := List.contains_iff_mem.mp straight.2
  have none := List.flatMap_eq_nil_iff.mp empty _ mem
  exact absurd none (by decide)

/-- Behind whatever comes before, every jump of a body leads to its path. -/
theorem lands {items : List Item} (straight : direct items = true) (before : List CodeByte)
    (small : (assemble items).length < 2 ^ 31) {n : Nat} {cond : Option Cond} {path : List Host.Insn}
    (piece : items[n]? = some (.leave cond path)) {rel : Word}
    (jump : (linked items)[n]? = some (Item.jump cond rel))
    (word : rel = BitVec.ofNat 32 (pathOf 0 items n) - BitVec.ofNat 32 (bodySize (items.take (n + 1)))) :
    Lands (before ++ assemble items) (endOf before.length (linked items) n) rel (pathOf before.length items n)
      path := by
  have next := endOf_linked before.length (List.getElem?_eq_some_iff.mp piece).1
  have sizes : bodySize items = bodySize (items.take (n + 1)) + bodySize (items.drop (n + 1)) := by
    rw [← bodySize_append, List.take_append_drop]
  have within : (encode ((items.take n).flatMap Item.path)).length ≤ (encode (items.flatMap Item.path)).length := by
    rw [paths_around piece, encode_append, List.length_append]
    exact Nat.le_add_right _ _
  rw [length_assemble] at small
  have reach : (pathOf 0 items n : Int) = bodySize (items.take (n + 1)) + rel.toInt := by
    rw [word]
    exact distance (by rw [pathOf]; omega) (by rw [pathOf]; omega)
  rw [pathOf] at reach
  have direct := List.all_eq_true.mp straight _ (List.mem_of_getElem? piece)
  refine ⟨?_, ?_, ?_, path_there before piece, path_nonempty direct⟩
  · rw [← encode_linked]
    exact readWord?_jump before jump
  · rw [next, pathOf]
    omega
  · rw [next, pathOf]
    omega

/-! ## What patches leave alone -/

theorem displacements_fst (out : Nat) (jumps : List (Nat × List Host.Insn)) :
    (displacements out jumps).map Prod.fst = jumps.map Prod.fst := by
  induction jumps generalizing out with
  | nil => rfl
  | cons jump rest ih => exact congrArg (jump.1 :: ·) (ih _)

theorem exits_mem {items : List Item} {pos use : Nat} (mem : use ∈ (exits pos items).map Prod.fst) :
    ∃ n cond path, items[n]? = some (.leave cond path) ∧ use + 4 = pos + bodySize (items.take (n + 1)) := by
  induction items generalizing pos with
  | nil => cases mem
  | cons item rest ih =>
    -- A piece further back has one more piece before it.
    have later (mem : use ∈ (exits (pos + item.size) rest).map Prod.fst) :
        ∃ n cond path, (item :: rest)[n]? = some (.leave cond path) ∧
          use + 4 = pos + bodySize ((item :: rest).take (n + 1)) := by
      obtain ⟨n, cond, path, piece, ends⟩ := ih mem
      exact ⟨n + 1, cond, path, piece, by rw [ends, Nat.add_assoc]; rfl⟩
    cases item with
    | insn i => exact later mem
    | leave cond path =>
      obtain rfl | mem := List.mem_cons.mp mem
      · have jump : (Item.leave cond path).size = (Item.opcode cond).length + 4 := by
          show (Item.jump cond 0).encode.length = _
          rw [encode_jump, List.length_append, CodeByte.length_ofWord]
        refine ⟨0, cond, path, rfl, ?_⟩
        show pos + (Item.leave cond path).size - 4 + 4 = pos + ((Item.leave cond path).size + 0)
        omega
      · exact later mem

theorem patchAll_stays {code code' : List CodeByte} {ps : List (Nat × Word)}
    (patched : patchAll code ps = .ok code') :
    code'.length = code.length ∧
      ∀ k, (∀ use ∈ ps.map Prod.fst, k < use ∨ use + 4 ≤ k) → code'[k]? = code[k]? := by
  induction ps generalizing code with
  | nil =>
    obtain rfl := Except.ok.inj patched
    exact ⟨rfl, fun _ _ => rfl⟩
  | cons p rest ih =>
    unfold patchAll at patched
    split at patched
    · cases patched
    · next one =>
      have first := CodeByte.patchWord?_stays one
      have others := ih patched
      refine ⟨others.1.trans first.1, fun k apart => ?_⟩
      rw [List.map_cons, List.forall_mem_cons] at apart
      exact (others.2 k apart.2).trans (first.2 k apart.1)

/-- Patches change displacements of jumps only. -/
theorem resolve_stays {before out : List CodeByte} {items : List Item} {start : Word} {d : Draft}
    (drafted : draft before items = .ok d) (resolved : d.resolve start = .ok out) :
    out.length = d.code.length ∧
      ∀ k, out[k]? ≠ d.code[k]? → InDisplacement before.length (linked items) k := by
  rw [draft_eq] at drafted
  obtain rfl := Except.ok.inj drafted
  dsimp only [Draft.resolve] at resolved
  rw [patches_placed] at resolved
  obtain ⟨size, stays⟩ := patchAll_stays resolved
  refine ⟨size, fun k changed => ?_⟩
  by_contra apart
  refine changed (stays k fun use mem => ?_)
  rw [displacements_fst] at mem
  obtain ⟨n, cond, path, piece, ends⟩ := exits_mem mem
  have inside := (List.getElem?_eq_some_iff.mp piece).1
  by_contra hit
  refine apart ⟨n, _, linked_piece piece, isJump_jump cond _, ?_⟩
  rw [endOf_linked _ inside]
  omega

/-! ## Blocks -/

section
variable {ρ : Type} [Names ρ]

theorem ofBlock_cause {b : Block} {p : Plan ρ} {e : CompileError} (failed : ofBlock b p = .error e) (reason : String) :
    e.cause ≠ .other reason := by
  unfold ofBlock at failed
  split at failed
  · obtain rfl := Except.error.inj failed
    exact nofun
  · split at failed
    · next missing =>
      obtain rfl := Except.error.inj failed
      obtain ⟨s, -, one⟩ := List.exists_of_findSome?_eq_some missing
      obtain ⟨g, -, rfl⟩ := Option.map_eq_some_iff.mp one
      exact nofun
    · cases failed

theorem ofBlock_code {b : Block} {p : Plan ρ} {code : List CodeByte} (made : ofBlock b p = .ok code) :
    code = encode (insns b p) := by
  rw [insns, encode_linked]
  unfold ofBlock at made
  split at made
  · cases made
  · split at made
    · cases made
    · exact (Except.ok.inj made).symm

/-- One pass over a block puts down its code, whatever host registers the plan names: the same bytes behind every
buffer, and the buffer keeps what it holds. It succeeds if the plan has a step for each instruction and places every
operand. Patches change nothing but the displacements of jumps, no displacement is left without a place or outside
the code, and in code of less than two gigabytes each jump leads to the first byte of its own path, which lies ahead
of it. -/
theorem emit_exact (b : Block) (p : Plan ρ) :
    (∀ before, emit before b p = ((ofBlock b p).map (before ++ ·)).mapError .compile ∧
      ((∃ out, emit before b p = .ok out) ↔ p.steps.length = b.insns.length ∧ missing? b p = none)) ∧
    (∀ before start number offset,
      emit before b p ≠ .error (.unplaced start number) ∧ emit before b p ≠ .error (.noLabel number) ∧
        emit before b p ≠ .error (.outside offset)) ∧
    ∀ before out, emit before b p = .ok out →
      out = before ++ encode (insns b p) ∧
      (∀ before', emit before' b p = .ok (before' ++ encode (insns b p))) ∧
      (∃ d, draft before (body b p) = .ok d ∧ d.resolve b.start = .ok out ∧ out.length = d.code.length ∧
        ∀ k, out[k]? ≠ d.code[k]? → InDisplacement before.length (insns b p) k) ∧
      ((encode (insns b p)).length < 2 ^ 31 → ∀ n j, (insns b p)[n]? = some j → j.isJump = true →
        ∃ cond path rel, (body b p)[n]? = some (.leave cond path) ∧ j = Item.jump cond rel ∧
          Lands out (endOf before.length (insns b p) n) rel (pathOf before.length (body b p) n) path) := by
  refine ⟨fun before => ⟨emit_eq before b p, emit_ok_iff before b p⟩, ?_⟩
  cases made : ofBlock b p with
  | error e =>
    have failed (before : List CodeByte) : emit before b p = .error (.compile e) := by
      rw [emit_eq, made]
      rfl
    refine ⟨fun before start number offset => ?_, fun before out emitted => ?_⟩
    · rw [failed]
      refine ⟨fun unplaced => ?_, nofun, nofun⟩
      have same := EmitError.compile.inj (Except.error.inj unplaced)
      exact ofBlock_cause made _ (congrArg CompileError.cause same)
    · rw [failed] at emitted
      cases emitted
  | ok code =>
    obtain rfl := ofBlock_code made
    have anywhere (before : List CodeByte) : emit before b p = .ok (before ++ encode (insns b p)) := by
      rw [emit_eq, made]
      rfl
    refine ⟨fun before start number offset => ?_, fun before out emitted => ?_⟩
    · rw [anywhere]
      exact ⟨nofun, nofun, nofun⟩
    rw [anywhere] at emitted
    obtain rfl := Except.ok.inj emitted
    refine ⟨rfl, anywhere, ?_, fun small n j at_n jump => ?_⟩
    · have drafted := draft_eq before (body b p)
      have resolved := layOut_eq b.start before (body b p)
      unfold layOut at resolved
      rw [drafted, ← encode_linked] at resolved
      exact ⟨_, drafted, resolved, resolve_stays drafted resolved⟩
    · obtain ⟨cond, path, piece, rfl⟩ := linked_jump (direct_body b p) at_n jump
      refine ⟨cond, path, _, piece, rfl, ?_⟩
      rw [insns, encode_linked] at small ⊢
      exact lands (direct_body b p) before small piece at_n rfl

end

def overflowBlock : Block :=
  { start := 0
    stop := 8
    insns :=
      [{ addr := 0, word := 0x00221820, insn := .alu .add 3 1 2, inDelaySlot := false },
       { addr := 4, word := 0xD, insn := .breakpoint 0, inDelaySlot := false }]
    terminator := .trap
    pages := [{ page := 0, version := 0 }] }

def overflowPlan : Plan :=
  match Plan.ofBlock overflowBlock with
  | .ok p => p
  | .error _ => .blank 2

/-- Behind a byte, the jump of the addition and that of the trap lead to a path each. -/
theorem emit_exact_overflow :
    ∃ out overflow trap, emit [.lit 0xC3] overflowBlock overflowPlan = .ok out ∧ Lands out 23 31 54 overflow ∧
      Lands out 38 52 90 trap := by
  have emitted : emit [.lit 0xC3] overflowBlock overflowPlan =
      .ok ([.lit 0xC3] ++ encode (insns overflowBlock overflowPlan)) := by
    decide +kernel
  obtain ⟨-, -, -, jumps⟩ := (emit_exact overflowBlock overflowPlan).2.2 _ _ emitted
  have jumps := jumps (by decide +kernel)
  have first : (insns overflowBlock overflowPlan)[5]? = some (.jcc .o 31) := by decide +kernel
  have second : (insns overflowBlock overflowPlan)[9]? = some (.jmp 52) := by decide +kernel
  obtain ⟨cond, overflow, rel, -, jump, lands⟩ := jumps 5 _ first rfl
  obtain ⟨cond', trap, rel', -, jump', lands'⟩ := jumps 9 _ second rfl
  obtain rfl : (31 : Word) = rel := by cases cond <;> cases jump; rfl
  obtain rfl : (52 : Word) = rel' := by cases cond' <;> cases jump'; rfl
  have end₅ : endOf 1 (insns overflowBlock overflowPlan) 5 = 23 := by decide +kernel
  have end₉ : endOf 1 (insns overflowBlock overflowPlan) 9 = 38 := by decide +kernel
  have start₅ : pathOf 1 (body overflowBlock overflowPlan) 5 = 54 := by decide +kernel
  have start₉ : pathOf 1 (body overflowBlock overflowPlan) 9 = 90 := by decide +kernel
  exact ⟨_, overflow, trap, emitted, end₅ ▸ start₅ ▸ lands, end₉ ▸ start₉ ▸ lands'⟩

end Code

end EmotionEngine
