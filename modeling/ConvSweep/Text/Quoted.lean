import ConvSweep.Text.Hidden

/-!
# Quoted text

Text from the input is repeated in messages between double quotes.  A quote and a
backslash are preceded by a backslash, a character without a sign of its own is
given by its number, and everything else stands for itself.
-/

namespace ConvSweep
namespace Text

/-- The hexadecimal digits of a number, in lower case. -/
def hexadecimal (n : Nat) : List Char :=
  Nat.toDigits 16 n

def escape (c : Char) : List Char :=
  if c = '"' then ['\\', '"']
  else if c = '\\' then ['\\', '\\']
  else if c = '\t' then ['\\', 't']
  else if c = '\n' then ['\\', 'n']
  else if c = '\r' then ['\\', 'r']
  else if c = '\x00' then ['\\', '0']
  else if isHidden c then ['\\', 'u', '\x7b'] ++ hexadecimal c.toNat ++ ['\x7d']
  else [c]

def quoted (text : List Char) : String :=
  String.ofList (['"'] ++ text.flatMap escape ++ ['"'])

end Text
end ConvSweep
