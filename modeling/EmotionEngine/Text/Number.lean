/-!
Numbers and columns as text: lowercase hexadecimal without leading zeros, the same padded to a width, and
text padded to a column; and the numbers that digits stand for.
-/

namespace EmotionEngine.Text

/-! ## Writing -/

/-- Lowercase hexadecimal digits, without leading zeros. -/
def hex (n : Nat) : String := String.ofList (Nat.toDigits 16 n)

/-- Text filled up on the left with `c` to at least `width` characters. -/
def padLeft (width : Nat) (c : Char) (s : String) : String :=
  String.ofList (List.replicate (width - s.length) c) ++ s

/-- Text filled up on the right with blanks to at least `width` characters. -/
def padRight (width : Nat) (s : String) : String :=
  s ++ String.ofList (List.replicate (width - s.length) ' ')

/-- Hexadecimal with at least `width` digits. -/
def hexPad (width n : Nat) : String := padLeft width '0' (hex n)

/-- An address: `0x` and eight digits. -/
def addr (n : Nat) : String := "0x" ++ hexPad 8 n

/-- A size or a page number: `0x` and as many digits as needed. -/
def size (n : Nat) : String := "0x" ++ hex n

def hexBytes (bs : List (BitVec 8)) : String :=
  String.join (bs.map (fun b => hexPad 2 b.toNat))

/-- The text with its first letter in upper case. -/
def capitalize (s : String) : String :=
  match s.toList with
  | [] => ""
  | c :: rest => String.ofList (c.toUpper :: rest)

def record (name : String) (fields : List (String × String)) : String :=
  name ++ " \x7b " ++ ", ".intercalate (fields.map (fun f => f.1 ++ ": " ++ f.2)) ++ " \x7d"

/-! ## Reading -/

/-- The value of a digit in a base; letters go on from nine. -/
def digit? (base : Nat) (c : Char) : Option Nat :=
  let d :=
    if '0' ≤ c ∧ c ≤ '9' then some (c.toNat - '0'.toNat)
    else if 'a' ≤ c ∧ c ≤ 'z' then some (c.toNat - 'a'.toNat + 10)
    else if 'A' ≤ c ∧ c ≤ 'Z' then some (c.toNat - 'A'.toNat + 10)
    else none
  d.bind (fun d => if d < base then some d else none)

/-- The number that digits stand for; there must be one at least. -/
def digits? (base : Nat) (cs : List Char) : Option Nat :=
  if cs.isEmpty then none
  else cs.foldlM (fun n c => (digit? base c).map (base * n + ·)) 0

/-- A number below a bound, with or without a plus sign. -/
def unsigned? (base bound : Nat) (cs : List Char) : Option Nat :=
  let number := digits? base (if cs.head? = some '+' then cs.tail else cs)
  number.bind (fun n => if n < bound then some n else none)

end EmotionEngine.Text
