import CohesionIpc.Model.Writers

/-! Headers against the bytes that follow them, payloads of 2³² bytes and more included. -/

namespace CohesionIpc

open ByteRepresentation

/-- The outbound channels. -/
inductive Writer
  | socketsClient
  | socketHandler
  | spawnClient
  | pipeChannel
  | streamConnector
deriving DecidableEq

namespace Writer

def message (host : ByteOrder) : Writer → List UInt8 → List UInt8
  | socketsClient => Sockets.ClientSession.message host
  | socketHandler => Sockets.SocketHandler.message host
  | spawnClient => Spawn.ClientSession.message host
  | pipeChannel => Spawn.PipeChannel.message host
  | streamConnector => Stream.SessionConnector.message host

/-- The byte order of the headers. -/
def order (host : ByteOrder) : Writer → ByteOrder
  | socketsClient | socketHandler => .bigEndian
  | spawnClient | pipeChannel | streamConnector => host

/-- The header of a message, and what follows it. -/
def header (host : ByteOrder) (w : Writer) (payload : List UInt8) : List UInt8 :=
  (w.message host payload).take 4

def body (host : ByteOrder) (w : Writer) (payload : List UInt8) : List UInt8 :=
  (w.message host payload).drop 4

/-- Each header is the number of bytes that follow, and a reader that gets the messages and
then anything else finds every frame where it begins. -/
structure InStep (host : ByteOrder) (w : Writer) (payloads : List (List UInt8)) : Prop where
  header : ∀ p ∈ payloads, (framing (w.order host)).size (w.header host p) = (w.body host p).length
  frames : ∀ rest, (framing (w.order host)).frames (payloads.flatMap (w.message host) ++ rest) =
    payloads.map (w.body host) ++ (framing (w.order host)).frames rest

variable {host : ByteOrder} {w : Writer} {payload : List UInt8} {payloads : List (List UInt8)}

/-- Every writer puts the narrowed length in front. -/
theorem message_eq (host : ByteOrder) (w : Writer) (payload : List UInt8) :
    w.message host payload = bytes (w.order host) (narrowedLength payload) ++
      if w = spawnClient ∨ w = pipeChannel then payload
      else payload.take (narrowedLength payload).toNat := by
  cases w with
  | socketsClient =>
      simp [message, Sockets.ClientSession.message, writeMessage, order, reorder_bytes]
  | socketHandler =>
      simp [message, Sockets.SocketHandler.message, Sockets.sendScalar, writeMessage, order,
        reorder_bytes]
  | spawnClient => simp [message, Spawn.ClientSession.message, writeMessage, order]
  | pipeChannel => simp [message, Spawn.PipeChannel.message, writeMessage, order]
  | streamConnector => simp [message, Stream.SessionConnector.message, writeMessage, order]

theorem toNat_narrowedLength (payload : List UInt8) :
    (narrowedLength payload).toNat = payload.length % 2 ^ 32 := by
  rw [narrowedLength, UInt32.toNat_ofNat']

theorem size_header (host : ByteOrder) (w : Writer) (payload : List UInt8) :
    (framing (w.order host)).size (w.header host payload) = payload.length % 2 ^ 32 := by
  rw [header, message_eq, List.take_left' (length_bytes _ _), framing_size, value_bytes,
    toNat_narrowedLength]

theorem body_eq (host : ByteOrder) (w : Writer) (payload : List UInt8) :
    w.body host payload = if w = spawnClient ∨ w = pipeChannel then payload
      else payload.take (payload.length % 2 ^ 32) := by
  rw [body, message_eq, List.drop_left' (length_bytes _ _), toNat_narrowedLength]

/-- A message whose header is the length of its body is a frame. -/
theorem message_eq_frame (hlen : (w.body host payload).length = payload.length % 2 ^ 32) :
    w.message host payload = (framing (w.order host)).frame (w.body host payload) := by
  rw [framing_frame, hlen, body_eq, message_eq, toNat_narrowedLength, ← toNat_narrowedLength,
    UInt32.ofNat_toNat]

theorem length_body (hlen : (w = spawnClient ∨ w = pipeChannel) → payload.length < 2 ^ 32) :
    (w.body host payload).length = payload.length % 2 ^ 32 := by
  rw [body_eq]
  split
  · rename_i hwhole
    exact (Nat.mod_eq_of_lt (hlen hwhole)).symm
  · rw [List.length_take]
    exact min_eq_left (Nat.mod_le _ _)

theorem inStep_of_lt (hlen : (w = spawnClient ∨ w = pipeChannel) →
    ∀ p ∈ payloads, p.length < 2 ^ 32) : w.InStep host payloads := by
  have hbody : ∀ p ∈ payloads, (w.body host p).length = p.length % 2 ^ 32 := fun p hp =>
    length_body fun hwhole => hlen hwhole p hp
  refine ⟨?_, fun rest => ?_⟩
  · intro p hp
    rw [size_header, hbody p hp]
  · have hframes : payloads.flatMap (w.message host) =
        (payloads.map (w.body host)).flatMap (framing (w.order host)).frame := by
      rw [List.flatMap_map]
      simp only [List.flatMap]
      exact congrArg _ (List.map_congr_left fun p hp => message_eq_frame (hbody p hp))
    rw [hframes, LengthPrefix.frames_flatMap_append]
    intro q hq
    rcases List.mem_map.mp hq with ⟨p, hp, rfl⟩
    rw [hbody p hp]
    exact Nat.mod_lt _ (by decide)

/-- A body that is not cut has the length in its header only below 2³². -/
theorem lt_of_inStep (h : w.InStep host payloads) (hwhole : w = spawnClient ∨ w = pipeChannel) :
    ∀ p ∈ payloads, p.length < 2 ^ 32 := by
  intro p hp
  have hheader := h.header p hp
  rw [size_header, body_eq, if_pos hwhole] at hheader
  rw [← hheader]
  exact Nat.mod_lt _ (by decide)

end Writer

/-- For every writer and every sequence of payloads: headers stay in step with what follows
them exactly when no payload of 2³² bytes or more goes through a pipe of `spawn`. -/
theorem headers_in_step_iff (host : ByteOrder) (w : Writer) (payloads : List (List UInt8)) :
    w.InStep host payloads ↔
      ((w = .spawnClient ∨ w = .pipeChannel) → ∀ p ∈ payloads, p.length < 2 ^ 32) :=
  ⟨Writer.lt_of_inStep, Writer.inStep_of_lt⟩

/-- A payload of 2³² bytes is announced as empty. -/
theorem spawned_header_drifts :
    (framing .littleEndian).size
        (Writer.spawnClient.header .littleEndian (List.replicate (2 ^ 32) 0)) = 0 ∧
      ¬ Writer.spawnClient.InStep .littleEndian [List.replicate (2 ^ 32) 0] ∧
      ¬ Writer.pipeChannel.InStep .littleEndian [List.replicate (2 ^ 32) 0] := by
  have hdrift : ∀ w, w = Writer.spawnClient ∨ w = .pipeChannel →
      ¬ w.InStep .littleEndian [List.replicate (2 ^ 32) 0] := by
    intro w hwhole h
    have hlt := Writer.lt_of_inStep h hwhole (List.replicate (2 ^ 32) 0) (List.mem_singleton_self _)
    rw [List.length_replicate] at hlt
    exact lt_irrefl _ hlt
  refine ⟨?_, hdrift _ (.inl rfl), hdrift _ (.inr rfl)⟩
  have hsize := Writer.size_header .littleEndian .spawnClient (List.replicate (2 ^ 32) 0)
  rwa [List.length_replicate, Nat.mod_self] at hsize

end CohesionIpc
