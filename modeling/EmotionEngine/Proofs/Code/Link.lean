import EmotionEngine.Code.OfInsn
import EmotionEngine.Host.Run
import EmotionEngine.Proofs.Host.Decode

/-!
Laid out code runs as the body it was made from. `Runs` is the meaning of a body before it is laid out:
pieces run in order, and a jump out of the body goes on with its own path. In the bytes every path lies
behind the body, and a jump is a distance; `run_link` follows a run through the bytes, where the part of
the body that is left, the paths of the pieces already passed and the paths still to come lie one after
the other.

Main statement: a body that runs to a return does so in its bytes, if a distance holds their number
(`run_assemble`).
-/

namespace EmotionEngine.Code

open Host (CodeByte Cond State)

/-- How a run of pieces ends: behind the last, or with a return. -/
inductive Outcome where
  | through (s : State)
  | left (s : State)

/-- Whether a jump under a condition is made. -/
def Jumps (s : State) : Option Cond → Prop
  | none => True
  | some c => s.holds? c = some true

/-- A run of pieces from a state. -/
inductive Runs : List Item → State → Outcome → Prop
  | nil (s : State) : Runs [] s (.through s)
  | insn {i : Host.Insn} {rest : List Item} {s s' : State} {o : Outcome} :
    i.perform s = some s' → Runs rest s' o → Runs (.insn i :: rest) s o
  | ret (rest : List Item) (s : State) : Runs (.insn .ret :: rest) s (.left s)
  | pass {c : Cond} {path : List Host.Insn} {rest : List Item} {s : State} {o : Outcome} :
    s.holds? c = some false → Runs rest s o → Runs (.leave (some c) path :: rest) s o
  | leave {cond : Option Cond} {path : List Host.Insn} {rest : List Item} {s s' : State} :
    Jumps s cond → Runs (items path) s (.left s') → Runs (.leave cond path :: rest) s (.left s')

namespace Runs

theorem append {a b : List Item} {s s' : State} {o : Outcome} (h : Runs a s (.through s'))
    (h' : Runs b s' o) : Runs (a ++ b) s o := by
  generalize ho : Outcome.through s' = o' at h
  induction h with
  | nil s => cases ho; exact h'
  | insn hp _ ih => exact .insn hp (ih ho)
  | ret => cases ho
  | pass hc _ ih => exact .pass hc (ih ho)
  | leave => cases ho

/-- What leaves one body never gets to the next. -/
theorem append_left {a b : List Item} {s s' : State} (h : Runs a s (.left s')) :
    Runs (a ++ b) s (.left s') := by
  generalize ho : Outcome.left s' = o at h
  induction h with
  | nil s => cases ho
  | insn hp _ ih => exact .insn hp (ih ho)
  | ret => exact .ret _ _
  | pass hc _ ih => exact .pass hc (ih ho)
  | leave hj hr => exact .leave hj hr

end Runs

/-! ## Layout -/

/-- All instructions of a piece can be told from their bytes. -/
def Item.Readable : Item → Prop
  | .insn i => i.Readable
  | .leave _ path => ∀ i ∈ path, i.Readable

theorem encode_cons (i : Host.Insn) (is : List Host.Insn) : encode (i :: is) = i.encode ++ encode is :=
  rfl

theorem encode_append (is is' : List Host.Insn) : encode (is ++ is') = encode is ++ encode is' :=
  List.flatMap_append

/-- A jump takes the same number of bytes over any distance. -/
theorem length_jump (cond : Option Cond) (rel : Word) :
    (Item.jump cond rel).encode.length = (Item.jump cond 0).encode.length := by
  cases cond with
  | none => rfl
  | some c => simp [Item.jump, Host.Insn.encode, Host.Insn.bytes, Host.Insn.helper?]

theorem Item.readable_jump (cond : Option Cond) (rel : Word) : (Item.jump cond rel).Readable := by
  cases cond <;> trivial

theorem length_link (items : List Item) (pos out : Nat) :
    (encode (link pos out items)).length = bodySize items := by
  induction items generalizing pos out with
  | nil => rfl
  | cons item rest ih =>
    cases item with
    | insn i =>
      rw [link, encode_cons, List.length_append, ih]
      rfl
    | leave cond path =>
      rw [link, encode_cons, List.length_append, ih, length_jump]
      rfl

theorem toNat_distance {out next : Nat} (h : next ≤ out) (hs : out < twoPow 32) :
    (BitVec.ofNat 32 out - BitVec.ofNat 32 next).toNat = out - next := by
  have hs' : out < 4294967296 := hs
  rw [BitVec.toNat_sub, BitVec.toNat_ofNat, BitVec.toNat_ofNat]
  omega

theorem run_encode {i : Host.Insn} (hr : i.Readable) (code : List CodeByte) (s : State) :
    Host.run (i.encode ++ code) s =
      match i.step s with
      | none => none
      | some (.ret, s) => some s
      | some (.next, s) => Host.run code s
      | some (.jump rel, s) => Host.run (code.drop rel.toNat) s := by
  rw [Host.run]
  split
  · next h => rw [Host.Insn.reads_encode i hr code] at h; cases h
  · next i' rest h =>
    rw [Host.Insn.reads_encode i hr code] at h
    cases h
    rfl

theorem step_of_perform {i : Host.Insn} {s s' : State} (h : i.perform s = some s') :
    i.step s = some (.next, s') := by
  cases i <;> first | exact congrArg (Option.map (Prod.mk Host.Control.next)) h | cases h

theorem step_jump {s : State} {cond : Option Cond} (h : Jumps s cond) (rel : Word) :
    (Item.jump cond rel).step s = some (.jump rel, s) := by
  cases cond with
  | none => rfl
  | some c =>
    show (s.holds? c).map _ = _
    rw [show s.holds? c = some true from h]
    rfl

theorem step_pass {s : State} {c : Cond} (h : s.holds? c = some false) (rel : Word) :
    (Item.jump (some c) rel).step s = some (.next, s) := by
  show (s.holds? c).map _ = _
  rw [h]
  rfl

theorem link_items (pos out : Nat) (path : List Host.Insn) : link pos out (items path) = path := by
  induction path generalizing pos with
  | nil => rfl
  | cons i rest ih =>
    show i :: link (pos + i.size) out (items rest) = i :: rest
    rw [ih]

theorem path_items (path : List Host.Insn) : (items path).flatMap Item.path = [] := by
  induction path with
  | nil => rfl
  | cons i rest ih => exact ih

/-- Where the run of a body goes in its bytes, when `code` lies behind them. -/
def Outcome.InBytes (o : Outcome) (code : List CodeByte) (r : Option State) : Prop :=
  match o with
  | .through s => r = Host.run code s
  | .left s => r = some s

/-- A run goes on in the bytes of a body, with `gap` between the body and its first path. -/
theorem run_link {body : List Item} {s : State} {o : Outcome} (h : Runs body s o)
    (pos out : Nat) (gap tail : List CodeByte) (hr : ∀ i ∈ body, i.Readable)
    (ho : out = pos + bodySize body + gap.length)
    (hs : out + (encode (body.flatMap Item.path)).length < twoPow 32) :
    o.InBytes (gap ++ (encode (body.flatMap Item.path) ++ tail))
      (Host.run (encode (link pos out body) ++ (gap ++ (encode (body.flatMap Item.path) ++ tail)))
        s) := by
  induction h generalizing pos out gap tail with
  | nil s => rfl
  | @insn i rest s s' o hp _ ih =>
    rw [link, encode_cons, List.append_assoc, run_encode (hr _ List.mem_cons_self), step_of_perform hp]
    refine ih _ _ gap tail (fun x hx => hr x (List.mem_cons_of_mem _ hx)) ?_ hs
    rw [ho]
    show pos + (i.size + bodySize rest) + gap.length = pos + i.size + bodySize rest + gap.length
    omega
  | ret rest s =>
    rw [link, encode_cons, List.append_assoc, run_encode (i := Host.Insn.ret) trivial]
    rfl
  | @pass c path rest s o hc _ ih =>
    rw [link, encode_cons, List.append_assoc, run_encode (Item.readable_jump _ _), step_pass hc]
    have split : encode (List.flatMap Item.path (.leave (some c) path :: rest)) =
        encode path ++ encode (rest.flatMap Item.path) := encode_append path _
    rw [split] at hs ⊢
    rw [List.length_append] at hs
    -- The path of the jump that was passed lies between the body and the paths still to come.
    have := ih (pos + (Item.leave (some c) path).size) (out + (encode path).length)
      (gap ++ encode path) tail (fun x hx => hr x (List.mem_cons_of_mem _ hx)) ?_ (by omega)
    · rwa [List.append_assoc, ← List.append_assoc (encode path)] at this
    · rw [ho, List.length_append]
      show pos + ((Item.leave (some c) path).size + bodySize rest) + gap.length + _ = _
      omega
  | @leave cond path rest s s' hj hp ih =>
    have hpath : ∀ i ∈ path, i.Readable := hr _ List.mem_cons_self
    rw [link, encode_cons, List.append_assoc, run_encode (Item.readable_jump _ _), step_jump hj]
    have split : encode (List.flatMap Item.path (.leave cond path :: rest)) =
        encode path ++ encode (rest.flatMap Item.path) := encode_append path _
    rw [split] at hs ⊢
    have size : bodySize (.leave cond path :: rest) = (Item.leave cond path).size + bodySize rest := rfl
    rw [size] at ho
    -- The jump goes over the rest of the body and the gap.
    have skipped : (encode (link (pos + (Item.leave cond path).size) (out + (encode path).length) rest) ++
        gap).length = out - (pos + (Item.leave cond path).size) := by
      rw [List.length_append, length_link]
      omega
    have path_runs := ih 0 (bodySize (items path)) [] (encode (rest.flatMap Item.path) ++ tail)
      (by simpa [items, Item.Readable] using hpath) (by simp) ?_
    · rw [link_items, path_items] at path_runs
      show Host.run (List.drop _ _) s = some s'
      rw [toNat_distance (by omega) (by omega), ← skipped, ← List.append_assoc, List.drop_left,
        List.append_assoc]
      exact path_runs
    · rw [path_items, ← length_link (items path) 0 0, link_items]
      simp only [List.length_append] at hs
      show (encode path).length + 0 < _
      omega

/-- A body that runs to a return does so in its bytes. -/
theorem run_assemble {body : List Item} {s s' : State} (h : Runs body s (.left s'))
    (hr : ∀ i ∈ body, i.Readable)
    (hs : bodySize body + (encode (body.flatMap Item.path)).length < twoPow 32) :
    Host.run (assemble body) s = some s' := by
  have := run_link h 0 (bodySize body) [] [] hr (by simp) hs
  rw [List.append_nil] at this
  exact this

end EmotionEngine.Code
