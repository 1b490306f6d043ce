import EmotionEngine.Text.Number

/-!
The text of a TOML document: blanks and line ends, the four kinds of strings, and keys. A reader takes
what it reads off the front of a text and gives the rest of it.
-/

namespace EmotionEngine.Toml

/-- A reader. -/
abbrev Reader (α : Type) := List Char → Option (α × List Char)

/-! ## Blanks -/

def isSpace (c : Char) : Bool := c == ' ' || c == '\t'

/-- The text without the blanks at its front. -/
def skipSpaces (cs : List Char) : List Char := cs.dropWhile isSpace

def newline? : List Char → Option (List Char)
  | '\n' :: rest => some rest
  | '\r' :: '\n' :: rest => some rest
  | _ => none

/-- The characters that may stand in a comment or a string: all but controls, the tab aside. -/
def isPlain (c : Char) : Bool := c == '\t' || (' ' ≤ c && c != '\x7f')

/-- What follows the end of a line on which nothing but a comment may still stand. -/
def endLine? (cs : List Char) : Option (List Char) :=
  let cs := skipSpaces cs
  let cs :=
    match cs with
    | '#' :: rest => rest.dropWhile isPlain
    | _ => cs
  match cs with
  | [] => some []
  | _ => newline? cs

/-- The text without blanks, line ends and comments at its front, as they may stand in an array. -/
def skipLines (comment : Bool) : List Char → List Char
  | [] => []
  | '\r' :: '\n' :: rest => skipLines false rest
  | c :: rest =>
    if c = '\n' then skipLines false rest
    else if comment then if isPlain c then skipLines true rest else c :: rest
    else if isSpace c then skipLines false rest
    else if c = '#' then skipLines true rest
    else c :: rest

/-- The text without blanks and line ends at its front. -/
def skipBlankLines : List Char → List Char
  | [] => []
  | '\r' :: '\n' :: rest => skipBlankLines rest
  | c :: rest => if c = '\n' || isSpace c then skipBlankLines rest else c :: rest

/-! ## Strings -/

/-- The character with a number of `n` hexadecimal digits. -/
def codePoint (n : Nat) (cs : List Char) : Option (Char × List Char) :=
  let digits := cs.take n
  if digits.length < n then none
  else
    match Text.digits? 16 digits with
    | some v => if v.isValidChar then some (Char.ofNat v, cs.drop n) else none
    | none => none

/-- The character that an escape stands for, after the backslash. -/
def escape : Reader Char
  | 'b' :: rest => some ('\x08', rest)
  | 't' :: rest => some ('\t', rest)
  | 'n' :: rest => some ('\n', rest)
  | 'f' :: rest => some ('\x0c', rest)
  | 'r' :: rest => some ('\r', rest)
  | '"' :: rest => some ('"', rest)
  | '\\' :: rest => some ('\\', rest)
  | 'u' :: rest => codePoint 4 rest
  | 'U' :: rest => codePoint 8 rest
  | _ => none

/-- Put a character before what a reader has read. -/
def before (c : Char) (r : Option (List Char × List Char)) : Option (List Char × List Char) :=
  r.map (fun p => (c :: p.1, p.2))

/-- A string after its opening quote; `fuel` bounds its length. -/
def basicBody : Nat → Reader (List Char)
  | 0, _ => none
  | _, [] => none
  | fuel + 1, c :: rest =>
    if c = '"' then some ([], rest)
    else if c = '\\' then
      match escape rest with
      | some (e, rest) => before e (basicBody fuel rest)
      | none => none
    else if isPlain c then before c (basicBody fuel rest)
    else none

/-- A literal string after its opening quote. -/
def literalBody : Reader (List Char)
  | [] => none
  | c :: rest =>
    if c = '\'' then some ([], rest)
    else if isPlain c then before c (literalBody rest)
    else none

/-- What a run of quotes in a string of several lines means: up to two are part of it, and three end
it, after which up to two more belong to it. -/
def quoteRun (quote : Char) (cs : List Char) : List Char × Bool × List Char :=
  let run := (cs.takeWhile (· == quote)).length
  if run < 3 then (List.replicate run quote, false, cs.drop run)
  else
    let inner := min (run - 3) 2
    (List.replicate inner quote, true, cs.drop (inner + 3))

/-- A string of several lines after its opening quotes. With `escapes`, a backslash at the end of a line
joins it with the next text. -/
def multiBody (quote : Char) (escapes : Bool) : Nat → Reader (List Char)
  | 0, _ => none
  | _, [] => none
  | fuel + 1, c :: rest =>
    if c = quote then
      let (inner, done, rest) := quoteRun quote (c :: rest)
      if done then some (inner, rest)
      else (multiBody quote escapes fuel rest).map (fun p => (inner ++ p.1, p.2))
    else if c = '\\' ∧ escapes then
      match newline? (skipSpaces rest) with
      | some rest => multiBody quote escapes fuel (skipBlankLines rest)
      | none =>
        match escape rest with
        | some (e, rest) => before e (multiBody quote escapes fuel rest)
        | none => none
    else
      match newline? (c :: rest) with
      | some rest => before '\n' (multiBody quote escapes fuel rest)
      | none => if isPlain c then before c (multiBody quote escapes fuel rest) else none

/-- A string of several lines; a line end right after its opening quotes does not count. -/
def multi (quote : Char) (escapes : Bool) (cs : List Char) : Option (List Char × List Char) :=
  multiBody quote escapes (cs.length + 1) ((newline? cs).getD cs)

def line : Reader String
  | '"' :: rest => (basicBody (rest.length + 1) rest).map (fun p => (String.ofList p.1, p.2))
  | '\'' :: rest => (literalBody rest).map (fun p => (String.ofList p.1, p.2))
  | _ => none

def text : Reader String
  | '"' :: '"' :: '"' :: rest => (multi '"' true rest).map (fun p => (String.ofList p.1, p.2))
  | '\'' :: '\'' :: '\'' :: rest => (multi '\'' false rest).map (fun p => (String.ofList p.1, p.2))
  | cs => line cs

/-! ## Keys -/

def isBare (c : Char) : Bool := c.isAlphanum || c == '-' || c == '_'

def keyPart (cs : List Char) : Option (String × List Char) :=
  match line cs with
  | some r => some r
  | none =>
    let word := cs.takeWhile isBare
    if word.isEmpty then none else some (String.ofList word, cs.drop word.length)

/-- The parts of a key, with blanks around each. -/
def keyParts : Nat → Reader (List String)
  | 0, _ => none
  | fuel + 1, cs =>
    match keyPart (skipSpaces cs) with
    | none => none
    | some (k, rest) =>
      match skipSpaces rest with
      | '.' :: rest => (keyParts fuel rest).map (fun p => (k :: p.1, p.2))
      | rest => some ([k], rest)

/-- How deep keys and values may be nested. -/
def nesting : Nat := 80

def key (cs : List Char) : Option ((List String × String) × List Char) :=
  match keyParts (nesting - 1) cs with
  | some (parts, rest) => parts.getLast?.map (fun k => ((parts.dropLast, k), rest))
  | none => none

end EmotionEngine.Toml
