import ConvSweep.Gzip.Huffman

/-!
# Deflate data

Compressed data is a sequence of blocks, read bit by bit from the low end of each
byte.  A block holds its bytes as they are, or as literals and copies of earlier
output under a fixed or a transmitted pair of prefix codes.  What was decoded
before the data ends or turns out to be corrupt is kept.
-/

namespace ConvSweep
namespace Gzip

inductive Stop
  | cutShort
  | corrupt
deriving DecidableEq

structure Decoder where
  /-- The number of bits read. -/
  position : Nat
  output : ByteArray

abbrev DecoderM : Type → Type :=
  EStateM Stop Decoder

namespace DecoderM

/-! ## Bits -/

def bit (input : ByteArray) : DecoderM Nat := fun d =>
  match input.data[d.position / 8]? with
  | some byte =>
      .ok (byte.toNat / Nat.pow 2 (d.position % 8) % 2) { d with position := d.position + 1 }
  | none => .error .cutShort d

/-- A number of `count` bits, the low bit first. -/
def bits (input : ByteArray) : Nat → DecoderM Nat
  | 0 => return 0
  | count + 1 => do
      let low ← bit input
      let high ← bits input count
      return low + 2 * high

def align : DecoderM Unit :=
  modify fun d => { d with position := (d.position + 7) / 8 * 8 }

/-- Reads bits until they form a code word; `first` and `index` belong to the current length. -/
def symbolFrom (input : ByteArray) (symbols : Array Nat) (word first index : Nat) :
    List Nat → DecoderM Nat
  | [] => throw .corrupt
  | count :: rest => do
      let next ← bit input
      let word := word + next
      if word < first + count then
        match symbols[index + (word - first)]? with
        | some symbol => return symbol
        | none => throw .corrupt
      else
        symbolFrom input symbols (2 * word) (2 * (first + count)) (index + count) rest

def symbol (input : ByteArray) (code : PrefixCode) : DecoderM Nat :=
  symbolFrom input code.symbols 0 0 0 code.counts

/-! ## Output -/

def emit (byte : UInt8) : DecoderM Unit :=
  modify fun d => { d with output := d.output.push byte }

/--
Appends the byte `distance` places before the end, `length` times.  Before the
first byte the window is filled with zeros.
-/
def copy (distance : Nat) : Nat → DecoderM Unit
  | 0 => return
  | length + 1 => do
      let d ← get
      let byte :=
        if distance ≤ d.output.size then d.output.data.getD (d.output.size - distance) 0 else 0
      emit byte
      copy distance length

end DecoderM

/-! ## Blocks -/

namespace Deflate

open DecoderM

/-- Least length and count of extra bits of the length symbols from 257 on. -/
def lengthTable : List (Nat × Nat) :=
  [(3, 0), (4, 0), (5, 0), (6, 0), (7, 0), (8, 0), (9, 0), (10, 0), (11, 1), (13, 1), (15, 1),
    (17, 1), (19, 2), (23, 2), (27, 2), (31, 2), (35, 3), (43, 3), (51, 3), (59, 3), (67, 4),
    (83, 4), (99, 4), (115, 4), (131, 5), (163, 5), (195, 5), (227, 5), (258, 0)]

/-- Least distance and count of extra bits of the distance symbols. -/
def distanceTable : List (Nat × Nat) :=
  [(1, 0), (2, 0), (3, 0), (4, 0), (5, 1), (7, 1), (9, 2), (13, 2), (17, 3), (25, 3), (33, 4),
    (49, 4), (65, 5), (97, 5), (129, 6), (193, 6), (257, 7), (385, 7), (513, 8), (769, 8),
    (1025, 9), (1537, 9), (2049, 10), (3073, 10), (4097, 11), (6145, 11), (8193, 12),
    (12289, 12), (16385, 13), (24577, 13)]

/-- The number that a table entry and its extra bits stand for. -/
def extended (input : ByteArray) (table : List (Nat × Nat)) (index : Nat) : DecoderM Nat :=
  match table[index]? with
  | some (least, extra) => do
      let more ← bits input extra
      return least + more
  | none => throw .corrupt

structure Codes where
  literals : PrefixCode
  distances : PrefixCode

def fixedCodes : Codes where
  literals := .ofLengths
    (List.replicate 144 8 ++ List.replicate 112 9 ++ List.replicate 24 7 ++ List.replicate 8 8)
  distances := .ofLengths (List.replicate 32 5)

/-- The order in which the lengths of the code for code lengths are sent. -/
def lengthOrder : List Nat :=
  [16, 17, 18, 0, 8, 7, 9, 6, 10, 5, 11, 4, 12, 3, 13, 2, 14, 1, 15]

/-- The code for code lengths, of which `count` lengths are sent. -/
def lengthCode (input : ByteArray) (count : Nat) : DecoderM PrefixCode := do
  let sent ← (lengthOrder.take count).mapM fun symbol => do
    return (symbol, ← bits input 3)
  let code := PrefixCode.ofLengths ((List.range 19).map fun s => (sent.lookup s).getD 0)
  if code.isComplete then return code else throw .corrupt

/-- `missing` more code lengths after those in `lengths`, with runs of earlier lengths and zeros. -/
def codeLengths (input : ByteArray) (code : PrefixCode) (lengths : List Nat) (missing : Nat) :
    Nat → DecoderM (List Nat)
  | 0 => throw .corrupt
  | fuel + 1 =>
      if missing = 0 then
        return lengths
      else do
        let symbol ← symbol input code
        let (length, count) ←
          if symbol < 16 then
            pure (symbol, 1)
          else if symbol = 16 then
            match lengths.getLast? with
            | some last => do pure (last, 3 + (← bits input 2))
            | none => throw .corrupt
          else if symbol = 17 then do
            pure (0, 3 + (← bits input 3))
          else do
            pure (0, 11 + (← bits input 7))
        if missing < count then
          throw .corrupt
        codeLengths input code (lengths ++ List.replicate count length) (missing - count) fuel

def transmittedCodes (input : ByteArray) : DecoderM Codes := do
  let literalCount := 257 + (← bits input 5)
  let distanceCount := 1 + (← bits input 5)
  let sentCount := 4 + (← bits input 4)
  let code ← lengthCode input sentCount
  let total := literalCount + distanceCount
  let lengths ← codeLengths input code [] total (total + 1)
  let codes : Codes :=
    { literals := .ofLengths (lengths.take literalCount)
      distances := .ofLengths (lengths.drop literalCount) }
  if codes.literals.isUsable && codes.distances.isUsable then
    return codes
  else
    throw .corrupt

/-- Literals and copies up to the end of the block. -/
def compressedBody (input : ByteArray) (codes : Codes) : Nat → DecoderM Unit
  | 0 => throw .corrupt
  | fuel + 1 => do
      let symbol ← symbol input codes.literals
      if symbol < 256 then
        emit (UInt8.ofNat symbol)
        compressedBody input codes fuel
      else if symbol = 256 then
        return
      else
        let length ← extended input lengthTable (symbol - 257)
        let distance ← extended input distanceTable (← DecoderM.symbol input codes.distances)
        copy distance length
        compressedBody input codes fuel

def storedBytes (input : ByteArray) : Nat → DecoderM Unit
  | 0 => return
  | count + 1 => do
      emit (UInt8.ofNat (← bits input 8))
      storedBytes input count

def storedBlock (input : ByteArray) : DecoderM Unit := do
  align
  let length ← bits input 16
  let complement ← bits input 16
  if length + complement = 0xffff then storedBytes input length else throw .corrupt

/-- Blocks up to the last one; every block and every symbol takes a bit, which bounds the fuel. -/
def blocks (input : ByteArray) : Nat → DecoderM Unit
  | 0 => throw .corrupt
  | fuel + 1 => do
      let last ← bit input
      let kind ← bits input 2
      if kind = 0 then
        storedBlock input
      else if kind = 1 then
        compressedBody input fixedCodes fuel
      else if kind = 2 then
        compressedBody input (← transmittedCodes input) fuel
      else
        throw .corrupt
      if last = 1 then return else blocks input fuel

end Deflate

/-- What a compressed stream holds, and where it ends or why it does not. -/
structure Inflated where
  data : ByteArray
  /-- The first byte after the stream. -/
  ending : Except Stop Nat

/-- Decodes the stream that starts at byte `start`. -/
def inflate (input : ByteArray) (start : Nat) : Inflated :=
  match Deflate.blocks input (8 * input.size + 1) ⟨8 * start, .empty⟩ with
  | .ok _ d => ⟨d.output, .ok ((d.position + 7) / 8)⟩
  | .error stop d => ⟨d.output, .error stop⟩

end Gzip
end ConvSweep
