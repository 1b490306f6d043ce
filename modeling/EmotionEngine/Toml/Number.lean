import EmotionEngine.Toml.Basic
import EmotionEngine.Toml.Text
import EmotionEngine.Word

/-!
The values that are written without quotes or brackets: integers, floats, truth values, and dates and
times. Each is a word of letters, digits and a few signs, and has to be of one of these forms as a whole.
-/

namespace EmotionEngine.Toml

open Text (digit?)

/-- Digits with single underscores between them. -/
def grouped (base : Nat) : List Char → Bool
  | [] => false
  | [c] => (digit? base c).isSome
  | c :: '_' :: rest => (digit? base c).isSome && grouped base rest
  | c :: rest => (digit? base c).isSome && grouped base rest

/-- The number that digits stand for; underscores are passed over. -/
def number (base : Nat) (cs : List Char) : Nat :=
  cs.foldl (fun n c => match digit? base c with | some d => base * n + d | none => n) 0

def sign : List Char → Bool × List Char
  | '-' :: rest => (true, rest)
  | '+' :: rest => (false, rest)
  | cs => (false, cs)

/-- Decimal digits that do not start with a zero, unless they are one. -/
def isDecimal (cs : List Char) : Bool := cs == ['0'] || (cs.head? != some '0' && grouped 10 cs)

/-- An integer in one of the bases that have a mark. -/
def based? (base : Nat) (cs : List Char) : Option Int :=
  if grouped base cs && number base cs < twoPow 63 then some (number base cs) else none

def int? : List Char → Option Int
  | '0' :: 'x' :: rest => based? 16 rest
  | '0' :: 'o' :: rest => based? 8 rest
  | '0' :: 'b' :: rest => based? 2 rest
  | cs =>
    let (negative, digits) := sign cs
    let n := number 10 digits
    if isDecimal digits then
      if negative then if n ≤ twoPow 63 then some (-n) else none
      else if n < twoPow 63 then some n
      else none
    else none

def isExponent : List Char → Bool
  | 'e' :: rest => grouped 10 (sign rest).2
  | 'E' :: rest => grouped 10 (sign rest).2
  | _ => false

def isFloat (cs : List Char) : Bool :=
  let digits := (sign cs).2
  let isDigit (c : Char) : Bool := (digit? 10 c).isSome || c == '_'
  digits == "inf".toList || digits == "nan".toList ||
    (isDecimal (digits.takeWhile isDigit) &&
      match digits.dropWhile isDigit with
      | '.' :: rest =>
        let tail := rest.dropWhile isDigit
        grouped 10 (rest.takeWhile isDigit) && (tail.isEmpty || isExponent tail)
      | tail => isExponent tail)

/-! ## Dates and times -/

/-- A number of exactly `n` digits between two bounds. -/
def field (n low high : Nat) (cs : List Char) : Option (Nat × List Char) :=
  let digits := cs.take n
  let v := number 10 digits
  if digits.length = n && digits.all (fun c => (digit? 10 c).isSome) && low ≤ v && v ≤ high then
    some (v, cs.drop n)
  else none

def expect (c : Char) : List Char → Option (List Char)
  | d :: rest => if d = c then some rest else none
  | [] => none

def daysIn (year month : Nat) : Nat :=
  if month = 2 then
    if year % 4 = 0 ∧ (year % 100 ≠ 0 ∨ year % 400 = 0) then 29 else 28
  else if month = 4 ∨ month = 6 ∨ month = 9 ∨ month = 11 then 30
  else 31

def date? (cs : List Char) : Option (List Char) := do
  let (year, cs) ← field 4 0 9999 cs
  let (month, cs) ← field 2 1 12 (← expect '-' cs)
  let (_, cs) ← field 2 1 (daysIn year month) (← expect '-' cs)
  return cs

def clock? (cs : List Char) : Option (List Char) := do
  let (_, cs) ← field 2 0 23 cs
  let (_, cs) ← field 2 0 59 (← expect ':' cs)
  let (_, cs) ← field 2 0 60 (← expect ':' cs)
  match cs with
  | '.' :: rest =>
    let fraction := rest.takeWhile (fun c => (digit? 10 c).isSome)
    if fraction.isEmpty then none else return rest.drop fraction.length
  | _ => return cs

/-- Whether the text is a distance from universal time. -/
def isOffset (cs : List Char) : Bool :=
  match cs with
  | [] => true
  | ['Z'] => true
  | ['z'] => true
  | s :: rest =>
    let clock := do
      let (_, cs) ← field 2 0 23 rest
      let (_, cs) ← field 2 0 59 (← expect ':' cs)
      return cs
    (s == '+' || s == '-') && clock == some []

/-- A date, a time, or both with the distance from universal time. -/
def isTime (cs : List Char) : Bool :=
  match date? cs with
  | some [] => true
  | some (sep :: rest) =>
    (sep == 'T' || sep == 't' || sep == ' ') &&
      (match clock? rest with
       | some tail => isOffset tail
       | none => false)
  | none => clock? cs == some []

/-! ## Words -/

def isWordChar (c : Char) : Bool :=
  c.isAlphanum || c == '_' || c == '+' || c == '-' || c == '.' || c == ':'

/-- A word. A blank between a date and a time belongs to it. -/
def word (cs : List Char) : List Char × List Char :=
  let w := cs.takeWhile isWordChar
  let rest := cs.drop w.length
  match rest with
  -- Two digits and a colon behind a date can only be a time.
  | ' ' :: a :: b :: ':' :: _ =>
    if date? w == some [] && (digit? 10 a).isSome && (digit? 10 b).isSome then
      let more := (rest.drop 1).takeWhile isWordChar
      (w ++ ' ' :: more, rest.drop (more.length + 1))
    else (w, rest)
  | _ => (w, rest)

def Value.ofWord? (w : List Char) : Option Value :=
  if w = "true".toList then some (.bool true)
  else if w = "false".toList then some (.bool false)
  else
    match int? w with
    | some i => some (.int i)
    | none =>
      if isFloat w then some (.float (String.ofList w))
      else if isTime w then some (.time (String.ofList w))
      else none

end EmotionEngine.Toml
