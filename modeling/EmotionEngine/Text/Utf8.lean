/-!
Bytes as text. The bytes need not be well formed: each longest piece of what could have become a
character, and each byte that starts none, is read as one replacement character.
-/

namespace EmotionEngine.Text

/-- The character that stands for what is none. -/
def replacement : Char := '\uFFFD'

/-- Of a sequence that starts with a byte: its length and the bounds of its second byte. -/
def sequence? (b : Nat) : Option (Nat × Nat × Nat) :=
  if 0xC2 ≤ b ∧ b ≤ 0xDF then some (2, 0x80, 0xBF)
  else if b = 0xE0 then some (3, 0xA0, 0xBF)
  else if b = 0xED then some (3, 0x80, 0x9F)
  else if 0xE1 ≤ b ∧ b ≤ 0xEF then some (3, 0x80, 0xBF)
  else if b = 0xF0 then some (4, 0x90, 0xBF)
  else if 0xF1 ≤ b ∧ b ≤ 0xF3 then some (4, 0x80, 0xBF)
  else if b = 0xF4 then some (4, 0x80, 0x8F)
  else none

/-- The bytes behind the first of a sequence, as far as they are there. -/
def continuation (len low high : Nat) (rest : List Nat) : List Nat :=
  match rest with
  | [] => []
  | c :: rest =>
    if low ≤ c ∧ c ≤ high then c :: (rest.take (len - 2)).takeWhile (fun c => 0x80 ≤ c && c ≤ 0xBF)
    else []

/-- The bits of a character in the first byte of its sequence. -/
def leadBits (len b : Nat) : Nat := b % (if len = 2 then 0x20 else if len = 3 then 0x10 else 0x08)

/-- The characters of bytes; `fuel` bounds their number. -/
def decode : Nat → List Nat → List Char
  | 0, _ => []
  | _, [] => []
  | fuel + 1, b :: rest =>
    if b < 0x80 then Char.ofNat b :: decode fuel rest
    else
      match sequence? b with
      | none => replacement :: decode fuel rest
      | some (len, low, high) =>
        let more := continuation len low high rest
        let c :=
          if more.length + 1 = len then
            Char.ofNat (more.foldl (fun n c => n * 64 + c % 64) (leadBits len b))
          else replacement
        c :: decode fuel (rest.drop more.length)

def ofBytes (bs : List (BitVec 8)) : String :=
  String.ofList (decode bs.length (bs.map BitVec.toNat))

end EmotionEngine.Text
