import CohesionIpc.Foundation.Buffer

/-! `buffer_writer` and `buffer_reader`. A `size_t` has `w` bits; positions are offsets in
the range that is read, and an access outside a range is undefined. -/

namespace CohesionIpc.Strmd

/-! ## The writer -/

namespace BufferWriter

/-- The constructor clears the buffer that the writer refers to. -/
def construct (_buffer : List UInt8) : List UInt8 := []

/-- A single byte takes the path of `push_back`. -/
def write (buffer data : List UInt8) : List UInt8 :=
  match data with
  | [b] => buffer.concat b
  | _ => buffer ++ data

/-- The buffer after the calls of one writer. -/
def writes (buffer : List UInt8) (chunks : List (List UInt8)) : List UInt8 :=
  chunks.foldl write (construct buffer)

end BufferWriter

/-! ## The reader -/

/-- `insufficient_buffer_error`. -/
structure InsufficientBufferError (w : ℕ) where
  requested : BitVec w
  available : BitVec w
deriving DecidableEq, Repr

def InsufficientBufferError.what {w : ℕ} (_ : InsufficientBufferError w) : String :=
  "buffer is smaller than requested to read"

structure BufferReader (w : ℕ) where
  ptr : ℕ
  remaining : BitVec w
deriving DecidableEq, Repr

/-- A call with a `size`; `data` is what the caller has in the memory that `read` is to fill,
which is at least as large. -/
inductive ReaderCall (w : ℕ)
  | read (size : BitVec w) (data : List UInt8) (fits : size.toNat ≤ data.length)
  | skip (size : BitVec w)

namespace ReaderCall

def size {w : ℕ} : ReaderCall w → BitVec w
  | read size _ _ => size
  | skip size => size

/-- What a call is given to be filled. -/
def data {w : ℕ} : ReaderCall w → List UInt8
  | read _ data _ => data
  | skip _ => []

end ReaderCall

/-- A reader after a call: what the caller's memory holds, and what the call has raised. -/
structure ReaderCalled (w : ℕ) where
  reader : BufferReader w
  data : List UInt8
  raised : Option (InsufficientBufferError w)
deriving DecidableEq, Repr

namespace BufferReader

variable {w : ℕ}

/-- The constructor over the whole of `payload`. -/
def construct (payload : List UInt8) : BufferReader w :=
  ⟨0, BitVec.ofNat w payload.length⟩

/-- `for (auto n = size; n--; ) *dest++ = *src++;` -/
def copy (payload : List UInt8) : ℕ → ℕ → ℕ → List UInt8 → Option (ℕ × List UInt8)
  | 0, src, _, data => some (src, data)
  | n + 1, src, dest, data =>
      match payload[src]? with
      | none => none
      | some b =>
          if dest < data.length then copy payload n (src + 1) (dest + 1) (data.set dest b)
          else none

def read (payload : List UInt8) (r : BufferReader w) (size : BitVec w) (data : List UInt8) :
    Option (ReaderCalled w) :=
  if size > r.remaining then some ⟨r, data, some ⟨size, r.remaining⟩⟩
  else
    (copy payload size.toNat r.ptr 0 data).map fun (src, data) =>
      ⟨⟨src, r.remaining - size⟩, data, none⟩

/-- The pointer may go to the end of the range and not beyond. -/
def skip (payload : List UInt8) (r : BufferReader w) (size : BitVec w) : Option (ReaderCalled w) :=
  if size > r.remaining then some ⟨r, [], some ⟨size, r.remaining⟩⟩
  else if r.ptr + size.toNat ≤ payload.length then
    some ⟨⟨r.ptr + size.toNat, r.remaining - size⟩, [], none⟩
  else none

/-- The next call on a reader over `payload`; `none` where it is undefined. -/
def step (payload : List UInt8) (s : ReaderCalled w) : ReaderCall w → Option (ReaderCalled w)
  | .read size data _ => s.reader.read payload size data
  | .skip size => s.reader.skip payload size

/-- A reader that has been constructed and not called yet. -/
def init (payload : List UInt8) : ReaderCalled w :=
  ⟨construct payload, [], none⟩

end BufferReader

end CohesionIpc.Strmd
