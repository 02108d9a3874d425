/-!
# Canonical prefix codes

A code is given by the length of each symbol's code word, zero for symbols without
one.  Code words of one length are consecutive numbers in the order of their
symbols, and follow those of the smaller lengths.
-/

namespace ConvSweep
namespace Gzip

structure PrefixCode where
  /-- How many code words there are of each length from one on. -/
  counts : List Nat
  /-- The symbols in the order of their code words. -/
  symbols : Array Nat
deriving Inhabited

namespace PrefixCode

def maxLength : Nat := 15

/-- The symbols whose code words have the given length, in ascending order. -/
def symbolsOfLength (lengths : List Nat) (length : Nat) : List Nat :=
  (lengths.zipIdx.filter fun (l, _) => l == length).map Prod.snd

/--
The number of code words that are free after those of each length are taken; none
if there are too many of some length.
-/
def freeWords? (free : Nat) : List Nat → Option Nat
  | [] => some free
  | count :: rest => if count ≤ 2 * free then freeWords? (2 * free - count) rest else none

def ofLengths (lengths : List Nat) : PrefixCode :=
  let groups := (List.range maxLength).map fun i => symbolsOfLength lengths (i + 1)
  ⟨groups.map List.length, groups.flatten.toArray⟩

/-- Every sequence of bits begins with a code word. -/
def isComplete (code : PrefixCode) : Bool :=
  freeWords? 1 code.counts == some 0

/-- Complete, or with one symbol at most. -/
def isUsable (code : PrefixCode) : Bool :=
  code.isComplete || (code.symbols.size ≤ 1 && (freeWords? 1 code.counts).isSome)

end PrefixCode
end Gzip
end ConvSweep
