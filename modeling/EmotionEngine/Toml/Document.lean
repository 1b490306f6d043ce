import EmotionEngine.Toml.Number

/-!
Reading a TOML document: values of any depth, then lines, then the tables that the lines make up. A text
that is not a document has no reading; what is wrong with it is not told.
-/

namespace EmotionEngine.Toml

/-! ## Values -/

def simple (cs : List Char) : Option (Value × List Char) :=
  match text cs with
  | some (s, rest) => some (.text s, rest)
  | none =>
    let (w, rest) := word cs
    (Value.ofWord? w).map (fun v => (v, rest))

/-- The elements of an array after its opening bracket or a comma. -/
def elements (element : Reader Value) : Nat → Reader (List Value)
  | 0, _ => none
  | fuel + 1, cs =>
    match skipLines false cs with
    | ']' :: rest => some ([], rest)
    | cs =>
      match element cs with
      | none => none
      | some (v, rest) =>
        match skipLines false rest with
        | ',' :: rest => (elements element fuel rest).map (fun p => (v :: p.1, p.2))
        | ']' :: rest => some ([v], rest)
        | _ => none

/-- An entry: a key, an equals sign and a value. -/
def entry (element : Reader Value) (cs : List Char) :
    Option ((List String × String × Value) × List Char) :=
  match key cs with
  | some ((path, k), '=' :: rest) =>
    (element (skipSpaces rest)).map (fun p => ((path, k, p.1), p.2))
  | _ => none

/-- The entries of an inline table after its opening brace or a comma, added to those before. -/
def pairs (element : Reader Value) : Nat → Entries → Reader Entries
  | 0, _, _ => none
  | fuel + 1, es, cs =>
    match entry element cs with
    | none => none
    | some ((path, k, v), rest) =>
      match es.insert k v path with
      | none => none
      | some es =>
        match skipSpaces rest with
        | ',' :: rest => pairs element fuel es rest
        | '\x7d' :: rest => some (es, rest)
        | _ => none

/-- A value with at most `depth` levels of arrays and tables. -/
def value : Nat → Reader Value
  | 0, cs => simple cs
  | depth + 1, cs =>
    match cs with
    | '[' :: rest =>
      (elements (value depth) (rest.length + 1) rest).map (fun p => (.array p.1, p.2))
    | '\x7b' :: rest =>
      match skipSpaces rest with
      | '\x7d' :: rest => some (.table .inline [], rest)
      | rest =>
        (pairs (value depth) (rest.length + 1) [] rest).map (fun p => (.table .inline p.1, p.2))
    | cs => simple cs

/-! ## Lines -/

/-- A line that says something. -/
inductive Line where
  | table (parents : List String) (key : String)
  | element (parents : List String) (key : String)
  | entry (path : List String) (key : String) (v : Value)

/-- A header after its opening brackets. -/
def header (close : List Char) (cs : List Char) : Option ((List String × String) × List Char) :=
  match key cs with
  | some (k, rest) =>
    if close.isPrefixOf rest then (endLine? (rest.drop close.length)).map (fun rest => (k, rest))
    else none
  | none => none

/-- The first line of a text that is not blank. -/
def firstLine (cs : List Char) : Option (Line × List Char) :=
  match cs with
  | '[' :: '[' :: rest =>
    (header [']', ']'] rest).map (fun p => (.element p.1.1 p.1.2, p.2))
  | '[' :: rest => (header [']'] rest).map (fun p => (.table p.1.1 p.1.2, p.2))
  | cs =>
    match entry (value (nesting - 1)) cs with
    | some ((path, k, v), rest) => (endLine? rest).map (fun rest => (.entry path k v, rest))
    | none => none

def lines : Nat → List Char → Option (List Line)
  | 0, _ => none
  | fuel + 1, cs =>
    let cs := skipSpaces cs
    match cs with
    | [] => some []
    | _ =>
      match endLine? cs with
      | some rest => lines fuel rest
      | none =>
        match firstLine cs with
        | none => none
        | some (l, rest) => (lines fuel rest).map (l :: ·)

/-! ## Documents -/

/-- What has been read so far: the document, and the table that entries go to. -/
structure Reading where
  root : Entries := []
  table : List String := []

def Reading.add (r : Reading) : Line → Option Reading
  | .table parents key =>
    (r.root.openTable parents key).map (fun root => { root, table := parents ++ [key] })
  | .element parents key =>
    (r.root.openElement parents key).map (fun root => { root, table := parents ++ [key] })
  | .entry path key v =>
    (r.root.modify (Entries.insert key v path) r.table).map (fun root => { r with root })

/-- The text without a byte order mark. -/
def withoutMark : List Char → List Char
  | '\uFEFF' :: rest => rest
  | cs => cs

def read? (s : String) : Option Entries :=
  let cs := withoutMark s.toList
  match lines (cs.length + 1) cs with
  | none => none
  | some ls => (ls.foldlM Reading.add {}).map Reading.root

end EmotionEngine.Toml
