import ConvSweep.Gzip.Member

/-!
# Sources of bytes

A source hands out its data piece by piece.  What is wrong with the data shows
only when a read reaches the place: a read that is satisfied does not look any
further.
-/

namespace ConvSweep

/-- Data that is handed out in order, and the error that a read past its end meets. -/
structure ByteSource where
  data : ByteArray
  position : Nat
  failure : Option StreamError
  /-- Whether the error comes again; otherwise the source is empty after it. -/
  lasting : Bool

namespace ByteSource

def ofBytes (data : ByteArray) : ByteSource :=
  ⟨data, 0, none, false⟩

/-- The data of the first member of a gzip file. -/
def ofGzip (input : ByteArray) : ByteSource :=
  let m := Gzip.Member.ofBytes input
  ⟨m.data, 0, m.failure, m.lasting⟩

def remaining (s : ByteSource) : Nat :=
  s.data.size - s.position

/--
The next `count` bytes, or as many as are left.  A read that asks for more than is
left meets the error of the source, if there is one, and loses its bytes.
-/
def read (count : Nat) : EStateM StreamError ByteSource ByteArray := fun s =>
  if count ≤ s.remaining then
    .ok (s.data.extract s.position (s.position + count)) { s with position := s.position + count }
  else
    let drained := { s with position := s.data.size }
    match s.failure with
    | none => .ok (s.data.extract s.position s.data.size) drained
    | some e => .error e (if s.lasting then drained else { drained with failure := none })

end ByteSource
end ConvSweep
