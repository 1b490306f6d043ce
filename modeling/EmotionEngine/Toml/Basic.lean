/-!
TOML documents: the values of the configuration language, and the tables that its headers, dotted keys
and inline forms build up. How a table came about decides what may still be added to it.
-/

namespace EmotionEngine.Toml

/-- How a table came about. -/
inductive Origin where
  /-- Written between braces: complete as it stands. -/
  | inline
  /-- Opened by a header of its own. -/
  | header
  /-- Named on the way to the table of a longer header. -/
  | implied
  /-- Named on the way to the last part of a dotted key. -/
  | dotted
  deriving DecidableEq

/-- A value. Floats and times are kept as they are written. -/
inductive Value where
  | text (s : String)
  | int (i : Int)
  | float (written : String)
  | bool (b : Bool)
  | time (written : String)
  | array (xs : List Value)
  | table (origin : Origin) (entries : List (String × Value))
  /-- An array of tables, one for each of its headers. -/
  | tables (ts : List (List (String × Value)))

/-- The entries of a table, in the order in which they were made. -/
abbrev Entries := List (String × Value)

namespace Entries

/-- Put a new value in the place of the one with the same key. -/
def replace (es : Entries) (key : String) (v : Value) : Entries :=
  es.map (fun e => if e.1 = key then (key, v) else e)

/-- Apply a change to the last of several tables. -/
def onLast (f : Entries → Option Entries) (ts : List Entries) : Option (List Entries) :=
  match ts.getLast? with
  | none => none
  | some t => (f t).map (fun t => ts.dropLast ++ [t])

/-- Add a value under a dotted key. A key is used once, and a table that has a header of its own or is
complete takes nothing more. -/
def insert (key : String) (v : Value) : List String → Entries → Option Entries
  | [], es => if (es.lookup key).isSome then none else some (es ++ [(key, v)])
  | p :: path, es =>
    match es.lookup p with
    | none => (insert key v path []).map (fun sub => es ++ [(p, .table .dotted sub)])
    | some (.table .dotted sub) =>
      (insert key v path sub).map (fun sub => es.replace p (.table .dotted sub))
    -- A dotted key may pass through the table of a header but not add to it.
    | some (.table .implied sub) =>
      if path.isEmpty then none
      else (insert key v path sub).map (fun sub => es.replace p (.table .implied sub))
    | some (.tables ts) =>
      if path.isEmpty then none
      else (onLast (insert key v path) ts).map (fun ts => es.replace p (.tables ts))
    | some _ => none

/-- Apply a change to the table that a header names, making the tables on the way to it. -/
def modify (f : Entries → Option Entries) : List String → Entries → Option Entries
  | [], es => f es
  | p :: path, es =>
    match es.lookup p with
    | none => (modify f path []).map (fun sub => es ++ [(p, .table .implied sub)])
    | some (.table .inline _) => none
    | some (.table origin sub) =>
      (modify f path sub).map (fun sub => es.replace p (.table origin sub))
    | some (.tables ts) => (onLast (modify f path) ts).map (fun ts => es.replace p (.tables ts))
    | some _ => none

/-- Open the table of a header, which must be new but for being implied. -/
def openTable (parents : List String) (key : String) : Entries → Option Entries :=
  modify (fun es =>
    match es.lookup key with
    | none => some (es ++ [(key, .table .header [])])
    | some (.table .implied sub) => some (es.replace key (.table .header sub))
    | some _ => none) parents

/-- Start the next table of an array of tables. -/
def openElement (parents : List String) (key : String) : Entries → Option Entries :=
  modify (fun es =>
    match es.lookup key with
    | none => some (es ++ [(key, .tables [[]])])
    | some (.tables ts) => some (es.replace key (.tables (ts ++ [[]])))
    | some _ => none) parents

end Entries

end EmotionEngine.Toml
