import CohesionIpc.Foundation.Buffer
import CohesionIpc.Model.ByteRepresentation

/-! `read_messages` over any read function that obtains less than requested only at the
end of its stream. -/

namespace CohesionIpc

/-- A call on an inbound `channel`. -/
inductive ChannelCall
  | message (payload : List UInt8)
  | disconnect
deriving DecidableEq, Repr

/-- A read function: it obtains the requested number of bytes, and fewer only where the
stream ends. `recv` with `MSG_WAITALL` and `fread` are of this kind. -/
structure ReadFunction (σ : Type*) where
  read : σ → ℕ → List UInt8 × σ
  unread : σ → List UInt8
  read_fst : ∀ s n, (read s n).1 = (unread s).take n
  unread_read : ∀ s n, unread (read s n).2 = (unread s).drop n

/-- The stream as the list of the bytes still to come. -/
def ReadFunction.ofList : ReadFunction (List UInt8) where
  read s n := (s.take n, s.drop n)
  unread s := s
  read_fst _ _ := rfl
  unread_read _ _ := rfl

@[simp] theorem ReadFunction.length_read_fst {σ : Type*} (R : ReadFunction σ) (s : σ) (n : ℕ) :
    (R.read s n).1.length = min n (R.unread s).length := by
  rw [R.read_fst, List.length_take]

open ByteRepresentation

variable {σ : Type*}

/-- The variables of `read_messages` between two turns of its loop. -/
structure ReadState (σ : Type*) where
  size : List UInt8
  buffer : List UInt8
  stream : σ

/-- One turn of the loop; `none` when the header does not come in full. The new `buffer`
is what the turn passes to `inbound.message`. -/
def readMessagesTurn (host : ByteOrder) (R : ReadFunction σ) (reorder : Bool)
    (r : ReadState σ) : Option (ReadState σ) :=
  let header := R.read r.stream 4
  if header.1.length = 4 then
    let size := Buffer.overwrite r.size header.1
    let size := if reorder then ByteRepresentation.reorder host size else size
    let n := (value host size).toNat
    let buffer := Buffer.resize 0 r.buffer n
    -- the number of bytes obtained by this call is not looked at
    let payload := R.read header.2 n
    some ⟨size, Buffer.overwrite buffer payload.1, payload.2⟩
  else none

theorem readMessagesTurn_unread_lt {host : ByteOrder} {R : ReadFunction σ} {reorder : Bool}
    {r r' : ReadState σ} (h : readMessagesTurn host R reorder r = some r') :
    (R.unread r'.stream).length < (R.unread r.stream).length := by
  simp only [readMessagesTurn, Option.ite_none_right_eq_some, Option.some.injEq,
    R.length_read_fst] at h
  obtain ⟨hlen, rfl⟩ := h
  simp only [R.unread_read, List.length_drop]
  omega

def readMessagesLoop (host : ByteOrder) (R : ReadFunction σ) (reorder : Bool)
    (r : ReadState σ) : List (List UInt8) :=
  match _h : readMessagesTurn host R reorder r with
  | none => []
  | some r' => r'.buffer :: readMessagesLoop host R reorder r'
termination_by (R.unread r.stream).length
decreasing_by exact readMessagesTurn_unread_lt _h

/-- The payloads `read_messages` passes to `inbound.message`. The vector starts empty and
`size` holds whatever was on the stack. -/
def readMessages (host : ByteOrder) (R : ReadFunction σ) (reorder : Bool) (size : UInt32)
    (s : σ) : List (List UInt8) :=
  readMessagesLoop host R reorder ⟨bytes host size, [], s⟩

/-! ## One turn -/

/-- The byte order in which `read_messages` takes the headers. -/
def headerOrder (host : ByteOrder) (reorder : Bool) : ByteOrder :=
  if reorder then .bigEndian else host

theorem value_headerOrder (host : ByteOrder) (reorder : Bool) {data : List UInt8}
    (h : data.length = 4) :
    value host (if reorder then ByteRepresentation.reorder host data else data) =
      value (headerOrder host reorder) data := by
  cases reorder with
  | false => rfl
  | true => simpa [headerOrder] using value_reorder host h

variable (host : ByteOrder) (R : ReadFunction σ) (reorder : Bool)

theorem readMessagesTurn_eq_none {r : ReadState σ} :
    readMessagesTurn host R reorder r = none ↔ (R.unread r.stream).length < 4 := by
  simp only [readMessagesTurn, ite_eq_right_iff, reduceCtorEq, imp_false, R.length_read_fst]
  omega

/-- The vector a turn hands on is the payload as far as it was obtained, then whatever the
resized vector held behind it. -/
theorem readMessagesTurn_eq_some {r r' : ReadState σ} (hsize : r.size.length = 4)
    (h : readMessagesTurn host R reorder r = some r') :
    let n := (framing (headerOrder host reorder)).size ((R.unread r.stream).take 4)
    r'.size.length = 4 ∧
      r'.buffer = Buffer.overwrite (Buffer.resize 0 r.buffer n)
        (((R.unread r.stream).drop 4).take n) ∧
      R.unread r'.stream = ((R.unread r.stream).drop 4).drop n := by
  intro n
  simp only [readMessagesTurn, Option.ite_none_right_eq_some, Option.some.injEq] at h
  obtain ⟨hlen, rfl⟩ := h
  simp only [R.read_fst] at hlen
  have hover : Buffer.overwrite r.size ((R.unread r.stream).take 4) = (R.unread r.stream).take 4 :=
    Buffer.overwrite_of_length_eq (hlen.trans hsize.symm)
  simp only [R.unread_read, R.read_fst, hover, value_headerOrder host reorder hlen]
  refine ⟨?_, rfl, rfl⟩
  cases reorder with
  | false => exact hlen
  | true => exact length_reorder host hlen

theorem readMessagesLoop_of_none {r : ReadState σ}
    (h : readMessagesTurn host R reorder r = none) : readMessagesLoop host R reorder r = [] := by
  rw [readMessagesLoop]
  split <;> simp_all

theorem readMessagesLoop_of_some {r r' : ReadState σ}
    (h : readMessagesTurn host R reorder r = some r') :
    readMessagesLoop host R reorder r = r'.buffer :: readMessagesLoop host R reorder r' := by
  rw [readMessagesLoop]
  split <;> simp_all

end CohesionIpc
