import EmotionEngine.Text.Number
import EmotionEngine.Word

/-!
Command lines: options with and without values among other arguments. The value of an option is the next
argument or follows an equals sign; the next argument is no value if it looks like an option itself.
After a lone double dash nothing is an option. Only some options may be given more than once.
-/

namespace EmotionEngine.Tool

/-- An option that a command knows. -/
structure OptionSpec where
  long : String
  short : Option Char := none
  takesValue : Bool := true
  repeatable : Bool := false

/-- A command line taken apart: options by their long names with their values, and all else. -/
structure CommandLine where
  options : List (String × String) := []
  others : List String := []

/-- What an argument is. -/
inductive Argument where
  /-- An option with all it needs. -/
  | option (long value : String)
  /-- An option whose value is the next argument. -/
  | pending (long : String)
  | other
  | unknown

/-- The part of a text before an equals sign, and the part behind it if there is one. -/
def splitEquals (cs : List Char) : String × Option String :=
  let name := cs.takeWhile (· ≠ '=')
  match cs.drop name.length with
  | [] => (String.ofList name, none)
  | _ :: value => (String.ofList name, some (String.ofList value))

def longOption (specs : List OptionSpec) (cs : List Char) : Argument :=
  let (name, value) := splitEquals cs
  match specs.find? (fun o => o.long == name), value with
  | none, _ => .unknown
  | some o, none => if o.takesValue then .pending o.long else .option o.long ""
  | some o, some v => if o.takesValue then .option o.long v else .unknown

/-- An option by its letter, which its value may follow directly. -/
def shortOption (specs : List OptionSpec) (c : Char) (rest : List Char) : Argument :=
  match specs.find? (fun o => o.short == some c), rest with
  | none, _ => .unknown
  | some o, [] => if o.takesValue then .pending o.long else .option o.long ""
  | some o, '=' :: v => if o.takesValue then .option o.long (String.ofList v) else .unknown
  | some o, v => if o.takesValue then .option o.long (String.ofList v) else .unknown

def classify (specs : List OptionSpec) (a : String) : Argument :=
  match a.toList with
  | '-' :: '-' :: rest => longOption specs rest
  | '-' :: c :: rest => shortOption specs c rest
  | _ => .other

/-- Whether an argument looks like an option. -/
def isOption (a : String) : Bool :=
  match a.toList with
  | '-' :: _ :: _ => true
  | _ => false

/-- Take a command line apart; `none` if an argument is unknown or a value is missing. -/
def scan (specs : List OptionSpec) : List String → Option CommandLine
  | [] => some {}
  | a :: rest =>
    if a = "--" then some { others := rest }
    else
      match classify specs a with
      | .unknown => none
      | .other => (scan specs rest).map (fun c => { c with others := a :: c.others })
      | .option long value => (scan specs rest).map (fun c => { c with options := (long, value) :: c.options })
      | .pending long =>
        match rest with
        | [] => none
        | v :: rest =>
          if isOption v then none
          else (scan specs rest).map (fun c => { c with options := (long, v) :: c.options })

namespace CommandLine

def values (c : CommandLine) (long : String) : List String :=
  (c.options.filter (fun o => o.1 == long)).map Prod.snd

def has (c : CommandLine) (long : String) : Bool := !(c.values long).isEmpty

/-- Read the value of an option, if it is given; the outer `none` says that it cannot be read. -/
def read? {α : Type} (c : CommandLine) (long : String) (parse : String → Option α) : Option (Option α) :=
  match c.values long with
  | [] => some none
  | v :: _ => (parse v).map some

/-- Take a command line apart in which each option is given no more often than it may. -/
def parse? (specs : List OptionSpec) (args : List String) : Option CommandLine :=
  match scan specs args with
  | none => none
  | some c => if specs.all (fun o => o.repeatable || (c.values o.long).length ≤ 1) then some c else none

end CommandLine

/-! ## Values -/

/-- The text without leading marks of the base in lower case. -/
def dropLower : List Char → List Char
  | '0' :: 'x' :: rest => dropLower rest
  | cs => cs

/-- The text without leading marks of the base in upper case. -/
def dropUpper : List Char → List Char
  | '0' :: 'X' :: rest => dropUpper rest
  | cs => cs

/-- An address in hexadecimal; the mark of the base may be missing or repeated. -/
def address? (s : String) : Option Word :=
  (Text.unsigned? 16 (twoPow 32) (dropUpper (dropLower s.toList))).map (fun n => BitVec.ofNat 32 n)

def count? (s : String) : Option Nat := Text.unsigned? 10 (twoPow 64) s.toList

/-- A count of 32 bits, which may carry a sign; the only negative one is zero. -/
def limit? (s : String) : Option Nat :=
  match s.toList with
  | '-' :: rest => (Text.digits? 10 rest).bind (fun n => if n = 0 then some 0 else none)
  | cs => Text.unsigned? 10 (twoPow 32) cs

def file? (s : String) : Option String := if s.isEmpty then none else some s

end EmotionEngine.Tool
