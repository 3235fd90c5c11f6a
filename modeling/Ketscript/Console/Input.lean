/-! Lines of an input of bytes. -/

namespace Ketscript

/-- Why an input cannot be read. -/
inductive InputError where
  | notUnicode
  | noSuchFile
  /-- Another failure of the system, in its own words. -/
  | system (message : String)
deriving Repr, DecidableEq

def InputError.message : InputError → String
  | .notUnicode => "stream did not contain valid UTF-8"
  | .noSuchFile => "No such file or directory (os error 2)"
  | .system message => message

def decodeText (bytes : List UInt8) : Except InputError String :=
  match String.fromUTF8? ⟨bytes.toArray⟩ with
  | some text => .ok text
  | none => .error .notUnicode

/-- Puts a byte in front of byte lines. A line feed ends a line. -/
def consByte (byte : UInt8) (lines : List (List UInt8)) : List (List UInt8) :=
  if byte = 10 then [] :: lines
  else match lines with
    | [] => [[byte]]
    | line :: rest => (byte :: line) :: rest

/-- The bytes between the line feeds, and after the last one if any follow. -/
def byteLines (bytes : List UInt8) : List (List UInt8) :=
  let pieces := bytes.foldr consByte [[]]
  if pieces.getLast?.all List.isEmpty then pieces.dropLast else pieces

/-- The lines of an input. Each is decoded by itself, so an ill-formed line leaves those before it whole. -/
def inputLines (bytes : ByteArray) : List (Except InputError String) :=
  (byteLines bytes.data.toList).map decodeText

end Ketscript
