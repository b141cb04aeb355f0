import CohesionIpc.Model.ReadMessages

/-! `server::handle_session`: one call serves at most one message of one connection, over
the receive buffer that all connections share. -/

namespace CohesionIpc.Sockets

open ByteRepresentation

/-- `socket_handler::status`. -/
inductive Status
  | proceed
  | removeThis
  | exit
deriving DecidableEq, Repr

/-- What `recv_scalar` yields: the value, the result of `recv` and the stream after it. -/
structure RecvScalar (σ : Type*) where
  value : UInt32
  result : ℕ
  stream : σ

variable {σ : Type*}

/-- `recv_scalar`. The union is not initialised: bytes that did not come are those of
`unset`. -/
def recvScalar (host : ByteOrder) (R : ReadFunction σ) (unset : UInt32) (s : σ) : RecvScalar σ :=
  let got := R.read s 4
  let data := Buffer.overwrite (bytes host unset) got.1
  ⟨value host (reorder host data), got.1.length, got.2⟩

/-- The outcome of `handle_session`: the call made on the inbound channel, the shared
buffer and the stream after it, and the status returned. -/
structure Served (σ : Type*) where
  call : ChannelCall
  buffer : List UInt8
  stream : σ
  status : Status

def handleSession (host : ByteOrder) (R : ReadFunction σ) (unset : UInt32)
    (buffer : List UInt8) (s : σ) : Served σ :=
  let size := recvScalar host R unset s
  if 0 < size.result then
    let buffer := Buffer.resize 0 buffer size.value.toNat
    -- neither `result` nor the number of bytes obtained here is compared with what was asked
    let payload := R.read size.stream size.value.toNat
    let buffer := Buffer.overwrite buffer payload.1
    ⟨.message buffer, buffer, payload.2, .proceed⟩
  else
    ⟨.disconnect, buffer, size.stream, .removeThis⟩

/-- A connection whose stream has ended is served until its handler asks to be removed. -/
theorem handleSession_unread_lt {host : ByteOrder} {R : ReadFunction σ} {unset : UInt32}
    {buffer : List UInt8} {s : σ} (h : (handleSession host R unset buffer s).status ≠ .removeThis) :
    (R.unread (handleSession host R unset buffer s).stream).length < (R.unread s).length := by
  simp only [handleSession, recvScalar, R.length_read_fst] at h ⊢
  split at h
  · rename_i hpos
    simp only [hpos, if_true, R.unread_read, List.length_drop]
    omega
  · exact absurd rfl h

/-- The calls on the inbound channel while `handle_session` is run on one stream until it
returns `remove_this`. -/
def serveSession (host : ByteOrder) (R : ReadFunction σ) (unset : UInt32)
    (buffer : List UInt8) (s : σ) : List ChannelCall :=
  let served := handleSession host R unset buffer s
  if _h : served.status = .removeThis then [served.call]
  else served.call :: serveSession host R unset served.buffer served.stream
termination_by (R.unread s).length
decreasing_by exact handleSession_unread_lt _h

variable (host : ByteOrder) (R : ReadFunction σ) (unset : UInt32)

theorem recvScalar_of_header {s : σ} (h : 4 ≤ (R.unread s).length) :
    (recvScalar host R unset s).value = value .bigEndian ((R.unread s).take 4) ∧
      (recvScalar host R unset s).result = 4 ∧
      R.unread (recvScalar host R unset s).stream = (R.unread s).drop 4 := by
  have htake : ((R.unread s).take 4).length = 4 := List.length_take_of_le h
  have hover : Buffer.overwrite (bytes host unset) ((R.unread s).take 4) = (R.unread s).take 4 :=
    Buffer.overwrite_of_length_eq (by rw [htake, length_bytes])
  simp only [recvScalar, R.read_fst, R.unread_read, hover, htake, value_reorder host htake,
    and_self]

/-- A complete frame at the head of the stream is delivered as it is. -/
theorem handleSession_of_frame (buffer : List UInt8) {s : σ} {p t : List UInt8}
    (hnext : (framing .bigEndian).next? (R.unread s) = some (p, t)) :
    let served := handleSession host R unset buffer s
    served.call = .message p ∧ served.buffer = p ∧ R.unread served.stream = t ∧
      served.status = .proceed := by
  obtain ⟨hp, hs⟩ := (framing .bigEndian).next?_eq_some.mp hnext
  have hlen : 4 ≤ (R.unread s).length := by
    rw [hs, List.length_append, LengthPrefix.length_frame, framing_width]
    omega
  obtain ⟨hvalue, hresult, hstream⟩ := recvScalar_of_header host R unset hlen
  have htake := (framing .bigEndian).take_width_frame_append p t
  have hdrop := (framing .bigEndian).drop_width_frame_append p t
  rw [← hs, framing_width] at htake hdrop
  have hsize : (recvScalar host R unset s).value.toNat = p.length := by
    rw [hvalue, htake, ← framing_size, (framing .bigEndian).size_header _ hp]
  have hbuffer : Buffer.overwrite (Buffer.resize 0 buffer p.length) p = p :=
    Buffer.overwrite_of_length_eq (by simp)
  have hpos : (0 : ℕ) < 4 := by decide
  simp only [handleSession, hresult, hpos, if_true, hsize, R.read_fst, R.unread_read, hstream,
    hdrop, List.take_left, List.drop_left, hbuffer, and_self]

/-- At the end of the stream the session is disconnected and the handler removed. -/
theorem handleSession_of_end (buffer : List UInt8) {s : σ} (h : R.unread s = []) :
    let served := handleSession host R unset buffer s
    served.call = .disconnect ∧ served.buffer = buffer ∧ R.unread served.stream = [] ∧
      served.status = .removeThis := by
  simp [handleSession, recvScalar, R.read_fst, R.unread_read, h]

/-- Anything else that has ended is delivered as a message of its own and used up. -/
theorem handleSession_of_cut (buffer : List UInt8) {s : σ} (hne : R.unread s ≠ [])
    (hnext : (framing .bigEndian).next? (R.unread s) = none) :
    let served := handleSession host R unset buffer s
    served.call = .message served.buffer ∧ R.unread served.stream = [] ∧
      served.status = .proceed := by
  have hpos : 0 < (R.unread s).length := List.length_pos_iff.mpr hne
  have hresult : 0 < (recvScalar host R unset s).result := by
    simp only [recvScalar, R.length_read_fst]
    omega
  simp only [handleSession, hresult, if_true, R.unread_read, true_and, and_true]
  rw [List.drop_eq_nil_iff]
  rcases (framing .bigEndian).next?_eq_none.mp hnext with hshort | hshort
  · rw [framing_width] at hshort
    simp only [recvScalar, R.unread_read, List.length_drop]
    omega
  · by_cases hlen : 4 ≤ (R.unread s).length
    · obtain ⟨hvalue, -, hstream⟩ := recvScalar_of_header host R unset hlen
      rw [hstream, hvalue, ← framing_size]
      exact hshort.le
    · simp only [recvScalar, R.unread_read, List.length_drop]
      omega

theorem serveSession_of_proceed {buffer : List UInt8} {s : σ}
    (h : (handleSession host R unset buffer s).status = .proceed) :
    serveSession host R unset buffer s = (handleSession host R unset buffer s).call ::
      serveSession host R unset (handleSession host R unset buffer s).buffer
        (handleSession host R unset buffer s).stream := by
  rw [serveSession]
  simp [h]

theorem serveSession_of_removeThis {buffer : List UInt8} {s : σ}
    (h : (handleSession host R unset buffer s).status = .removeThis) :
    serveSession host R unset buffer s = [(handleSession host R unset buffer s).call] := by
  rw [serveSession]
  simp [h]

end CohesionIpc.Sockets
