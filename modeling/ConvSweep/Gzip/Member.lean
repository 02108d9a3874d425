import ConvSweep.Error
import ConvSweep.Gzip.Crc32
import ConvSweep.Gzip.Inflate

/-!
# Gzip members

A member is a header with optional fields, a compressed stream, and the check
value and length of its data.  What is wrong with the stream or with what follows
it takes nothing from the data before it, but for corrupt data in a window that
is decoded as a whole.
-/

namespace ConvSweep
namespace Gzip

/-! ## Header -/

def byte? (input : ByteArray) (i : Nat) : Except StreamError Nat :=
  match input.data[i]? with
  | some b => .ok b.toNat
  | none => .error .unexpectedEnd

/-- A number of two bytes, the low one first. -/
def short? (input : ByteArray) (i : Nat) : Except StreamError Nat := do
  let low ← byte? input i
  let high ← byte? input (i + 1)
  return low + 256 * high

/-- Names and comments are at most this long. -/
def maxFieldLength : Nat := 65535

/-- The place after the zero byte that ends a field of `room` more bytes at most. -/
def afterZero (input : ByteArray) (i : Nat) : Nat → Except StreamError Nat
  | 0 => do
      if (← byte? input i) = 0 then return i + 1 else throw .gzipFieldLength
  | room + 1 => do
      if (← byte? input i) = 0 then return i + 1 else afterZero input (i + 1) room

def flag (flags bit : Nat) : Bool :=
  flags / Nat.pow 2 bit % 2 == 1

/-- Length of the part of the header that every member has. -/
def fixedLength : Nat := 10

def headerEnd (input : ByteArray) : Except StreamError Nat := do
  if input.size < fixedLength then
    throw .unexpectedEnd
  if (← short? input 0) ≠ 0x8b1f ∨ (← byte? input 2) ≠ 8 then
    throw .gzipHeader
  let flags ← byte? input 3
  if 32 ≤ flags then
    throw .gzipHeader
  let i := fixedLength
  let i ← if flag flags 2 then do
      let length ← short? input i
      if input.size < i + 2 + length then throw .unexpectedEnd else pure (i + 2 + length)
    else pure i
  let i ← if flag flags 3 then afterZero input i maxFieldLength else pure i
  let i ← if flag flags 4 then afterZero input i maxFieldLength else pure i
  if flag flags 1 then
    let stored ← short? input i
    if stored = (Crc32.ofBytes (input.extract 0 i)).toNat % 65536 then
      return i + 2
    else
      throw .checksum
  else
    return i

/-! ## Data -/

/-- A member's data, and the error that is met after it. -/
structure Member where
  data : ByteArray
  failure : Option StreamError
  /-- Whether the error stays; otherwise nothing more comes after it. -/
  lasting : Bool

/-- Corrupt data hides what was decoded before it in the same window of this length. -/
def windowSize : Nat := 32768

/-- A number of four bytes, the low one first; a byte past the end counts as zero. -/
def word (input : ByteArray) (i : Nat) : Nat :=
  (List.range 4).foldr (fun k n => 256 * n + (input.data.getD (i + k) 0).toNat) 0

/-- The check value and the length after the stream belong to its data. -/
def trailerMatches (input : ByteArray) (i : Nat) (data : ByteArray) : Bool :=
  word input i == (Crc32.ofBytes data).toNat && word input (i + 4) == data.size % 0x100000000

namespace Member

def ofBytes (input : ByteArray) : Member :=
  match headerEnd input with
  | .error e => ⟨.empty, some e, false⟩
  | .ok start =>
      let stream := inflate input start
      match stream.ending with
      | .error .cutShort => ⟨stream.data, some .incompleteData, true⟩
      | .error .corrupt =>
          let shown := stream.data.size / windowSize * windowSize
          ⟨stream.data.extract 0 shown, some .corruptData, true⟩
      | .ok i =>
          if input.size < i + 8 then
            ⟨stream.data, some .unexpectedEnd, true⟩
          else if trailerMatches input i stream.data then
            ⟨stream.data, none, false⟩
          else
            ⟨stream.data, some .checksum, false⟩

end Member
end Gzip
end ConvSweep
