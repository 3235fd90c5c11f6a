import Ketscript.Text.Digits

/-! Options of the command: a seed for the random words, how much to report, and the name of a script. -/

namespace Ketscript

structure Options where
  seed : Option UInt64
  verbosity : Nat
  script : Option String
deriving Repr, DecidableEq

namespace Options

def plain : Options := ⟨none, 0, none⟩

/-- A seed is a 64-bit word. -/
def seed? (s : String) : Except String UInt64 :=
  match Text.word? s with
  | .ok n => .ok n.toUInt64
  | .error _ => .error s!"'{s}' is not a seed"

/-- How often `-v` is asked for by one argument such as `-vv`, if it asks for nothing else. -/
def verbosity? (argument : String) : Option Nat :=
  match argument.toList with
  | '-' :: 'v' :: rest => if rest.all (· == 'v') then some (rest.length + 1) else none
  | _ => if argument == "--verbose" then some 1 else none

/-- Adds the name of the script, of which there is one at most. -/
def withScript (o : Options) (name : String) : Except String Options :=
  match o.script with
  | some _ => .error s!"unexpected argument '{name}'"
  | none => .ok { o with script := some name }

/-- Reads arguments from left to right. After `--` all of them are names. -/
def read : Options → List String → Except String Options
  | o, [] => .ok o
  | _, ["--seed"] => .error "--seed needs a value"
  | o, "--seed" :: value :: rest => do read { o with seed := some (← seed? value) } rest
  | o, "--" :: names => names.foldlM withScript o
  | o, argument :: rest => do
    match verbosity? argument, argument.toList with
    | some n, _ => read { o with verbosity := o.verbosity + n } rest
    | _, '-' :: '-' :: 's' :: 'e' :: 'e' :: 'd' :: '=' :: value =>
      read { o with seed := some (← seed? (String.ofList value)) } rest
    | _, '-' :: _ :: _ => .error s!"unexpected argument '{argument}'"
    | _, _ => read (← withScript o argument) rest

def ofArguments (arguments : List String) : Except String Options := read plain arguments

end Options
end Ketscript
