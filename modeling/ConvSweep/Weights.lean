import ConvSweep.ByteSource
import ConvSweep.Tensor.Basic

/-!
# Weight blobs

A blob holds the weights of one case after the other, each number as four bytes
with the low one first.  A file is unpacked when its extension is `gz`.  A case
that is read moves the reader past it; a case for which the blob is too short
uses up what is left.
-/

namespace ConvSweep

/-- The number with the given bytes, the low one first. -/
def Binary32.ofBytes (a b c d : UInt8) : Binary32 :=
  ⟨a.toUInt32 ||| b.toUInt32 <<< 8 ||| c.toUInt32 <<< 16 ||| d.toUInt32 <<< 24⟩

/-- The number in the four bytes from `4 * i` on. -/
def wordAt (bytes : ByteArray) (i : Nat) : Binary32 :=
  let byte (k : Nat) : UInt8 := bytes.data.getD (4 * i + k) 0
  .ofBytes (byte 0) (byte 1) (byte 2) (byte 3)

structure WeightReader where
  source : ByteSource
  /-- The numbers in the cases read so far. -/
  consumed : Nat

namespace WeightReader

def ofBytes (bytes : ByteArray) : WeightReader :=
  ⟨.ofBytes bytes, 0⟩

/-- The letters after the last point of a file name, unless the point is its first character. -/
def extension (name : List Char) : Option (List Char) :=
  let fileName := (name.reverse.takeWhile (· ≠ '/')).reverse
  let letters := (fileName.reverse.takeWhile (· ≠ '.')).reverse
  if letters.length + 1 < fileName.length then some letters else none

/-- A reader of a file with the given name and contents. -/
def ofFile (name : String) (bytes : ByteArray) : WeightReader :=
  if extension name.toList = some ['g', 'z'] then
    ⟨.ofGzip bytes, 0⟩
  else
    .ofBytes bytes

def readCase (shape : FilterShape) : EStateM Error WeightReader (Tensor Binary32) := fun r =>
  match shape.size?, shape.byteSize? with
  | some expected, some length =>
      match ByteSource.read length r.source with
      | .error e source => .error (.stream e) { r with source }
      | .ok bytes source =>
          if bytes.size < length then
            .error (.truncated expected (bytes.size / 4)) { r with source }
          else
            let data := (Array.range expected).map (wordAt bytes)
            let after : WeightReader := ⟨source, r.consumed + expected⟩
            match Tensor.ofArray shape.dims data with
            | .ok t => .ok t after
            | .error e => .error e after
  | _, _ => .error (.descriptor (.uncountable shape)) r

end WeightReader
end ConvSweep
