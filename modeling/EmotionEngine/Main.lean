import EmotionEngine.Tool.BlockDump
import EmotionEngine.Tool.Run

/-!
The command line: the first argument names the tool, and the rest are the tool's own. Files are read and
written here; what is done with them is the work of the tools.
-/

namespace EmotionEngine.Tool

/-- The status of a command line that makes no sense. -/
def usageStatus : UInt32 := 2

def failureStatus : UInt32 := 1

def fail (f : Failure) : IO UInt32 := do
  IO.eprint f.report
  return failureStatus

/-- Why the system refused: its own words and the number of the error. -/
def refusal : IO.Error → String
  | .noFileOrDirectory _ code why => why ++ " (os error " ++ toString code ++ ")"
  | .permissionDenied _ code why => why ++ " (os error " ++ toString code ++ ")"
  | .inappropriateType _ code why => why ++ " (os error " ++ toString code ++ ")"
  | e => e.toString

/-- Do something with a file and go on with what it gives, or report why it cannot be done. -/
def onFile {α : Type} (doing file : String) (act : IO α) (next : α → IO UInt32) : IO UInt32 := do
  match ← act.toBaseIO with
  | .ok a => next a
  | .error e => fail (.file doing file (refusal e))

def readAll (file : String) : IO ByteArray := IO.FS.withFile file .read (fun h => h.readBinToEnd)

def withImage (file : String) (next : List Byte → IO UInt32) : IO UInt32 :=
  onFile "reading" file (readAll file) (fun bytes =>
    next (bytes.toList.map (fun b => BitVec.ofNat 8 b.toNat)))

/-- Go on with the text of a configuration, if a file is named. -/
def withConfig (file : Option String) (next : Option String → IO UInt32) : IO UInt32 :=
  match file with
  | none => next none
  | some name =>
    onFile "reading" name (readAll name) (fun bytes =>
      match String.fromUTF8? bytes with
      | some text => next (some text)
      | none => fail (.file "reading" name "stream did not contain valid UTF-8"))

def printRun (o : Run.Output) : IO UInt32 := do
  let out ← IO.getStdout
  out.write (ByteArray.mk (o.console.map (fun b => UInt8.ofNat b.toNat)).toArray)
  out.putStr o.text
  out.flush
  match o.failure with
  | some f => fail f
  | none => return 0

/-- The tool `ee-run`. A configuration that cannot be read is reported before the image is. -/
def runMain (args : List String) : IO UInt32 := do
  match Run.Args.parse? args with
  | none => return usageStatus
  | some a =>
    withConfig a.config (fun config =>
      match Run.configure a config with
      | .error f => fail f
      | .ok _ => withImage a.image (fun image => printRun (Run.execute a config image)))

def blockDumpMain (args : List String) : IO UInt32 := do
  match BlockDump.Args.parse? args with
  | none => return usageStatus
  | some a =>
    withImage a.image (fun image =>
      match BlockDump.execute a image with
      | .error f => fail f
      | .ok text =>
        match a.output with
        | some file => onFile "creating" file (IO.FS.writeFile file text) (fun _ => return 0)
        | none => do
          IO.print text
          return 0)

end EmotionEngine.Tool

/-- Run the tool that the first argument names. -/
def main (args : List String) : IO UInt32 :=
  match args with
  | "ee-run" :: rest => EmotionEngine.Tool.runMain rest
  | "ee-blockdump" :: rest => EmotionEngine.Tool.blockDumpMain rest
  | _ => return EmotionEngine.Tool.usageStatus
