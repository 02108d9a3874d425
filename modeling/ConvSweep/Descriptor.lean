import ConvSweep.Error
import ConvSweep.Text.Word

/-!
# Descriptors

A descriptor is a text of words: a count of cases and then four extents per case.
Words after the last case are ignored.  Every case has to have positive extents
and weights that can be counted in bytes.
-/

namespace ConvSweep
namespace Descriptor

/-- The number that a field has to supply, and the words after it. -/
def readNumber (field : DescriptorField) :
    List (List Char) → Except DescriptorError (Nat × List (List Char))
  | [] => .error (.missing field)
  | word :: rest =>
      match Text.natural? Size.limit word with
      | some n => .ok (n, rest)
      | none => .error (.notNumber field word)

def readCase (index : Nat) (words : List (List Char)) :
    Except DescriptorError (FilterShape × List (List Char)) := do
  let (outChannels, words) ← readNumber (.extent index .outChannels) words
  let (inChannels, words) ← readNumber (.extent index .inChannels) words
  let (kernelRows, words) ← readNumber (.extent index .kernelRows) words
  let (kernelCols, words) ← readNumber (.extent index .kernelCols) words
  let shape : FilterShape := { outChannels, inChannels, kernelRows, kernelCols }
  if shape.isEmpty then
    throw (.zeroExtent index shape)
  if shape.byteSize?.isNone then
    throw (.tooLarge index shape)
  return (shape, words)

/-- The cases from number `index` on. -/
def readCases (index : Nat) (words : List (List Char)) :
    Nat → Except DescriptorError (List FilterShape)
  | 0 => .ok []
  | count + 1 => do
      let (shape, words) ← readCase index words
      let shapes ← readCases (index + 1) words count
      return shape :: shapes

/-- A list of `2 ^ 58` cases or more cannot be stored. -/
def caseLimit : Nat := 0x400000000000000

def ofWords (words : List (List Char)) : Outcome (List FilterShape) := do
  let (count, words) ← (readNumber .caseCount words).mapError fun e => .error (.descriptor e)
  Fault.capacity.check (count < caseLimit)
  (readCases 0 words count).mapError fun e => .error (.descriptor e)

def parse (text : List Char) : Outcome (List FilterShape) :=
  ofWords (Text.words text)

/-- Reads a descriptor in UTF-8; the encoding is checked before anything else. -/
def decode (bytes : ByteArray) : Outcome (List FilterShape) :=
  match String.fromUTF8? bytes with
  | some text => parse text.toList
  | none => .error (.error (.stream .notText))

end Descriptor
end ConvSweep
