/-!
# CRC-32

The cyclic redundancy check of gzip members: the reflected polynomial
`0xedb88320`, starting from and ending with a complement.
-/

namespace ConvSweep
namespace Gzip
namespace Crc32

/-- One bit of the remainder. -/
def shift (crc : UInt32) : UInt32 :=
  if crc &&& 1 = 1 then (crc >>> 1) ^^^ 0xedb88320 else crc >>> 1

/-- The remainder after one more byte. -/
def push (crc : UInt32) (byte : UInt8) : UInt32 :=
  Nat.fold 8 (fun _ _ crc => shift crc) (crc ^^^ byte.toUInt32)

def ofBytes (bytes : ByteArray) : UInt32 :=
  bytes.data.foldl push 0xffffffff ^^^ 0xffffffff

end Crc32
end Gzip
end ConvSweep
