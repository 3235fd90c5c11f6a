import Ketscript.Console.Options
import Ketscript.Console.Process
import Ketscript.Machine.WordStream

/-! The command. With a script it runs the script; without one it holds a dialogue over standard input and
    shows a prompt if that is a terminal. -/

namespace Ketscript.Command

/-- The bytes of the next line and its line feed, or none at the end of the input. -/
partial def readLine (input : IO.FS.Stream) (line : ByteArray) : IO ByteArray := do
  let byte ← input.read 1
  if byte.isEmpty then return line
  let line := line ++ byte
  if byte.data == #[10] then return line else readLine input line

/-- Answers the lines of the input as they come. -/
partial def converse (words : Nat → UInt64) (interactive : Bool) (m : Machine FloatComplex) :
    IO UInt32 := do
  let output ← IO.getStdout
  (promptFor interactive).forM output.putStr
  output.flush
  match inputLines (← readLine (← IO.getStdin) ByteArray.empty) with
  | [] =>
    if interactive then output.putStrLn ""
    return 0
  | .error e :: _ =>
    IO.eprintln ("error: stdin: " ++ e.message)
    return 1
  | .ok line :: _ =>
    match Request.ofLine line with
    | .quit => return 0
    | request =>
      let (reply, m) := m.reply words request
      output.putStr reply.output
      if let some e := reply.error then IO.eprintln ("error: " ++ e.message)
      converse words interactive m

def readFile (name : String) : IO (Except InputError ByteArray) := do
  try
    return .ok (← IO.FS.readBinFile name)
  catch
    | .noFileOrDirectory .. => return .error .noSuchFile
    | e => return .error (.system (toString e))

/-- The stream of random words, of a seed drawn by the system if none is given. -/
def wordsFor (seed : Option UInt64) : IO (Nat → UInt64) :=
  match seed with
  | some seed => return WordStream.ofSeed seed
  | none => do
    let bytes ← IO.getRandomBytes 8
    return WordStream.ofSeed (bytes.data.foldl (fun seed byte => 256 * seed + byte.toUInt64) 0)

def run (options : Options) : IO UInt32 := do
  let words ← wordsFor options.seed
  match options.script with
  | some name =>
    let completion := complete words (.script name (← readFile name))
    IO.print completion.stdout
    IO.eprint completion.stderr
    return completion.code
  | none => converse words (← (← IO.getStdin).isTty) Machine.fresh

end Ketscript.Command

def main (arguments : List String) : IO UInt32 :=
  match Ketscript.Options.ofArguments arguments with
  | .ok options => Ketscript.Command.run options
  | .error message => do
    IO.eprintln ("error: " ++ message)
    return 2
