import EmotionEngine.Block.Basic
import EmotionEngine.Insn.Decode
import EmotionEngine.Memory.Access

/-!
Forming blocks. Instructions are taken in order from the entry until one ends the block, the limit is
reached, the page ends, or an address to stop before comes next. A branch is taken together with its
delay slot, which may lie in the next page; if the slot cannot be fetched the block ends before the
branch.

A page is marked as code before its first word is fetched, so any later write to it shows in its
version.
-/

namespace EmotionEngine.Block

/-- Memory and the pages marked so far. -/
structure Building where
  mem : Memory
  pages : List PageSnapshot

/-- Fetch a word, marking its page first if the block has not reached it yet. -/
def Building.fetch (st : Building) (addr : Word) : Except MemError Word × Building :=
  let page := pageOf (virtToPhys addr)
  if st.pages.any (·.page == page) then (st.mem.fetch addr, st)
  else
    match st.mem.markCode page with
    | (none, mem) => (.error (.invalidAddress addr), { st with mem })
    | (some version, mem) => (mem.fetch addr, { mem, pages := st.pages ++ [{ page, version }] })

/-- How a block ends that ends with this instruction. -/
def classify : Insn → Terminator
  | .jump _ true => .call
  | .jumpReg _ (some _) => .call
  | .branch _ _ _ _ _ true => .call
  | .jumpReg rs none => if rs = 31 then .ret else .jump
  | .eret => .ret
  | .jump _ false => .jump
  | .branch _ _ _ _ _ false => .branch
  | .fpuBranch .. => .branch
  | .ei | .di | .cop0Move .. => .system
  | _ => .trap

/-- What executes in a delay slot that holds a word: one that may not stand there is reserved. -/
def slotInsn (w : Word) : Insn :=
  let i := Insn.decode w
  if i.allowedInDelaySlot then i else .reserved w

/-- The rest of a block from the instruction `word` at `pc` on, where `left` more may follow it. -/
def scan (stops : List Word) : Nat → Building → Word → Word →
    List DecodedInsn × Terminator × Building
  | left, st, pc, word =>
    let insn := Insn.decode word
    let here := { addr := pc, word, insn, inDelaySlot := false : DecodedInsn }
    let next := pc + 4
    if insn.hasDelaySlot then
      -- Neither the limit nor the end of the page parts a branch from its slot.
      match st.fetch next with
      | (.ok w, st) =>
        ([here, { addr := next, word := w, insn := slotInsn w, inDelaySlot := true }],
          classify insn, st)
      | (.error _, st) => ([], .fetchFault next (some pc), st)
    else if insn.endsBlock then ([here], classify insn, st)
    else
      match left with
      | 0 => ([here], .limit, st)
      | left + 1 =>
        -- The next page is not marked for a block that could as well end here.
        if next.toNat % pageSize = 0 then ([here], .pageEnd, st)
        else if stops.contains next then ([here], .limit, st)
        else
          match st.fetch next with
          | (.error _, st) => ([here], .fetchFault next none, st)
          | (.ok w, st) =>
            let (rest, terminator, st) := scan stops left st next w
            (here :: rest, terminator, st)

/-- The block at `entry`, of at most `limit` instructions (but at least one) besides a delay slot, and
ending before each of `stops`. It fails only if the entry itself cannot be fetched. -/
def build (mem : Memory) (limit : Nat) (stops : List Word) (entry : Word) :
    Except MemError Block × Memory :=
  match ({ mem, pages := [] } : Building).fetch entry with
  | (.error e, st) => (.error e, st.mem)
  | (.ok w, st) =>
    let (insns, terminator, st) := scan stops (max limit 1 - 1) st entry w
    (.ok
      { start := entry
        stop := entry + BitVec.ofNat 32 (4 * insns.length)
        insns
        terminator
        pages := st.pages },
      st.mem)

end EmotionEngine.Block
