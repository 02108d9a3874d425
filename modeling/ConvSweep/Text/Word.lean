/-!
# Words

Text is read as a sequence of words with blanks between them.  A blank is a
character with the Unicode property White_Space, so line breaks of every kind
separate words like spaces do.  A size is written as decimal digits, with at most
one plus sign before them.
-/

namespace ConvSweep
namespace Text

/-- The characters with the property White_Space. -/
def isBlank (c : Char) : Bool :=
  let n := c.toNat
  (0x9 ≤ n && n ≤ 0xd) || n == 0x20 || n == 0x85 || n == 0xa0 || n == 0x1680 ||
    (0x2000 ≤ n && n ≤ 0x200a) || n == 0x2028 || n == 0x2029 || n == 0x202f ||
    n == 0x205f || n == 0x3000

/-- The words of a text that continues a word of which `word` holds the letters, last first. -/
def wordsFrom (word : List Char) : List Char → List (List Char)
  | [] => if word.isEmpty then [] else [word.reverse]
  | c :: rest =>
      if isBlank c then
        if word.isEmpty then wordsFrom [] rest else word.reverse :: wordsFrom [] rest
      else
        wordsFrom (c :: word) rest

/-- The longest stretches without a blank, in their order. -/
def words (text : List Char) : List (List Char) :=
  wordsFrom [] text

/-! ## Numbers -/

def digit? (c : Char) : Option Nat :=
  if '0' ≤ c ∧ c ≤ '9' then some (c.toNat - '0'.toNat) else none

/-- The number that continues `value` with the digits of a text. -/
def digitsFrom (value : Nat) : List Char → Option Nat
  | [] => some value
  | c :: rest => do digitsFrom (10 * value + (← digit? c)) rest

/-- One digit at least and nothing but digits. -/
def digits? : List Char → Option Nat
  | [] => none
  | c :: rest => digitsFrom 0 (c :: rest)

/-- A number below `limit`, with an optional plus sign. -/
def natural? (limit : Nat) (text : List Char) : Option Nat := do
  let n ← match text with
    | '+' :: rest => digits? rest
    | _ => digits? text
  if n < limit then some n else none

end Text
end ConvSweep
