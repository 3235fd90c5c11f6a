import Ketscript.Text.Standalone

/-! Quoted forms of texts and characters, with escapes for the quote, the backslash, and the characters that
    cannot be shown by themselves. -/

namespace Ketscript.Text

/-- A character as it stands between quotes of one kind. -/
def escapeChar (quote c : Char) : List Char :=
  if c = quote ∨ c = '\\' then ['\\', c]
  else if c = '\n' then ['\\', 'n']
  else if c = '\t' then ['\\', 't']
  else if c = '\r' then ['\\', 'r']
  else if c = '\x00' then ['\\', '0']
  else if isStandalone c then [c]
  else "\\u\x7b".toList ++ Nat.toDigits 16 c.toNat ++ ['\x7d']

def quote (mark : Char) (cs : List Char) : String :=
  String.ofList (mark :: cs.flatMap (escapeChar mark) ++ [mark])

end Ketscript.Text
