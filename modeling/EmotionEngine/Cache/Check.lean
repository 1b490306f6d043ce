import EmotionEngine.Cache.Basic

/-!
Checking a cache: whether its indices, the order of use and the accounting of bytes all agree. The first
disagreement is reported in words.
-/

namespace EmotionEngine.Cache

def describeId (id : BlockId) : String := "BlockId(" ++ toString id ++ ")"

/-- A disagreement of the address index with the blocks. -/
def addrProblem? (c : Cache) : Option String :=
  c.byAddr.toList.findSome? (fun (pc, id) =>
    match c.blocks[id]? with
    | some e =>
      if e.block.start.toNat = pc then none
      else some ("address " ++ Text.addr pc ++ " maps to a missing block")
    | none => some ("address " ++ Text.addr pc ++ " maps to a missing block"))

def Entry.covers (e : Entry) (page : Nat) : Bool := e.block.pages.any (·.page == page)

/-- A disagreement of the page index with the blocks. -/
def pageProblem? (c : Cache) : Option String :=
  c.byPage.toList.findSome? (fun (page, ids) =>
    ids.findSome? (fun id =>
      if (c.blocks[id]?.map (·.covers page)).getD false then none
      else some ("page " ++ Text.size page ++ " lists " ++ describeId id ++ ", which does not cover it")))

def entryProblem? (c : Cache) (id : BlockId) (e : Entry) : Option String :=
  let name := "block " ++ Text.addr e.block.start.toNat
  if c.byAddr[e.block.start.toNat]? ≠ some id then some (name ++ " missing from the address index")
  else
    match e.block.pages.find? (fun p => !(c.byPage.getD p.page []).contains id) with
    | some p => some (name ++ " missing from page " ++ Text.size p.page)
    | none =>
      if c.byUse[e.lastUse]? ≠ some id then some (name ++ " missing from the LRU list") else none

def problem? (c : Cache) : Option String :=
  let entries := c.blocks.toList
  let refs : Nat := c.byPage.toList.foldr (fun p n => p.2.length + n) 0
  let expected : Nat := entries.foldr (fun p n => p.2.block.pages.length + n) 0
  let bytes : Nat := entries.foldr (fun p n => Arena.footprint p.2.size + n) 0 +
    c.retired.toList.foldr (fun p n => Arena.footprint p.2.size + n) 0
  if c.byAddr.size ≠ c.blocks.size then
    some (toString c.byAddr.size ++ " addresses indexed for " ++ toString c.blocks.size ++ " blocks")
  else
    c.addrProblem? <|> c.pageProblem? <|> entries.findSome? (fun p => c.entryProblem? p.1 p.2) <|>
    if refs ≠ expected then
      some (toString refs ++ " page references, expected " ++ toString expected)
    else if c.byUse.size ≠ c.blocks.size then
      some (toString c.byUse.size ++ " LRU entries for " ++ toString c.blocks.size ++ " blocks")
    else if bytes ≠ c.arena.used then
      some (toString bytes ++ " code bytes accounted, arena holds " ++ toString c.arena.used)
    else none

def check (c : Cache) : Except CacheError Unit :=
  match c.problem? with
  | some what => .error (.corrupted what)
  | none => .ok ()

end EmotionEngine.Cache
