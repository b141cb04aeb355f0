import CohesionIpc.Model.Sockets.HandleSession
import CohesionIpc.Model.Writers
import CohesionIpc.Verification.Transport.Delivery

/-! Every writer of the library against the reader at the other end of its transport. -/

namespace CohesionIpc

open ByteRepresentation

variable {σ : Type*} {payload : List UInt8}

/-! ## Writers -/

theorem Sockets.ClientSession.message_eq_frame (host : ByteOrder) (h : payload.length < 2 ^ 32) :
    Sockets.ClientSession.message host payload = (framing .bigEndian).frame payload :=
  writeMessage_eq_frame (reorder_bytes host) (fun _ hs => by simp [hs]) h

theorem Sockets.SocketHandler.message_eq_frame (host : ByteOrder) (h : payload.length < 2 ^ 32) :
    Sockets.SocketHandler.message host payload = (framing .bigEndian).frame payload :=
  writeMessage_eq_frame (reorder_bytes host) (fun _ hs => by simp [hs]) h

theorem Spawn.ClientSession.message_eq_frame (host : ByteOrder) (h : payload.length < 2 ^ 32) :
    Spawn.ClientSession.message host payload = (framing host).frame payload :=
  writeMessage_eq_frame (fun _ => rfl) (fun _ _ => rfl) h

theorem Spawn.PipeChannel.message_eq_frame (host : ByteOrder) (h : payload.length < 2 ^ 32) :
    Spawn.PipeChannel.message host payload = (framing host).frame payload :=
  writeMessage_eq_frame (fun _ => rfl) (fun _ _ => rfl) h

theorem Stream.SessionConnector.message_eq_frame (host : ByteOrder) (h : payload.length < 2 ^ 32) :
    Stream.SessionConnector.message host payload = (framing host).frame payload :=
  writeMessage_eq_frame (fun _ => rfl) (fun _ hs => by simp [hs]) h

/-- A writer that writes frames turns a list of messages into their frames. -/
theorem flatMap_eq_flatMap_frame {write : List UInt8 → List UInt8} {order : ByteOrder}
    {payloads : List (List UInt8)} (hlen : ∀ p ∈ payloads, p.length < 2 ^ 32)
    (hwrite : ∀ p : List UInt8, p.length < 2 ^ 32 → write p = (framing order).frame p) :
    payloads.flatMap write = payloads.flatMap (framing order).frame := by
  simp only [List.flatMap]
  exact congrArg _ (List.map_congr_left fun p hp => hwrite p (hlen p hp))

/-! ## Readers -/

/-- `read_messages` on a stream of frames delivers their payloads and stops. -/
theorem readMessages_of_frames {host : ByteOrder} {R : ReadFunction σ} {reorder : Bool}
    {payloads : List (List UInt8)} (hlen : ∀ p ∈ payloads, p.length < 2 ^ 32) (size : UInt32)
    {s : σ} (hs : R.unread s = payloads.flatMap (framing (headerOrder host reorder)).frame) :
    readMessages host R reorder size s = payloads := by
  obtain ⟨hframes, hresidue⟩ := (framing (headerOrder host reorder)).frames_eq_of_append hlen
    (LengthPrefix.next?_nil _) (hs.trans (List.append_nil _).symm)
  have hloop := readMessagesLoop_eq host R reorder ⟨bytes host size, [], s⟩ (length_bytes host size)
  rw [readMessages, hloop]
  simp [hframes, hresidue]

/-- The sockets server on a stream of frames delivers their payloads, then disconnects. -/
theorem Sockets.serveSession_of_frames (host : ByteOrder) (R : ReadFunction σ) (unset : UInt32)
    {payloads : List (List UInt8)} (hlen : ∀ p ∈ payloads, p.length < 2 ^ 32)
    (buffer : List UInt8) {s : σ}
    (hs : R.unread s = payloads.flatMap (framing .bigEndian).frame) :
    serveSession host R unset buffer s = payloads.map .message ++ [.disconnect] := by
  induction payloads generalizing buffer s with
  | nil =>
      obtain ⟨hcall, -, -, hstatus⟩ := handleSession_of_end host R unset buffer hs
      rw [serveSession_of_removeThis host R unset hstatus, hcall]
      rfl
  | cons p ps ih =>
      have hnext : (framing .bigEndian).next? (R.unread s) =
          some (p, ps.flatMap (framing .bigEndian).frame) := by
        rw [hs, List.flatMap_cons]
        exact LengthPrefix.next?_frame_append _ (hlen p (by simp)) _
      obtain ⟨hcall, -, hunread, hstatus⟩ := handleSession_of_frame host R unset buffer hnext
      rw [serveSession_of_proceed host R unset hstatus, hcall,
        ih (fun q hq => hlen q (by simp [hq])) _ hunread, List.map_cons, List.cons_append]

/-! ## Matched pairs -/

/-- On every transport, what is written message by message is what the other end hands on,
in order and nothing else. The hosts at the two ends of a socket may differ. -/
theorem transports_round_trip (R : ReadFunction σ) (sender receiver host : ByteOrder)
    (payloads : List (List UInt8)) (hlen : ∀ p ∈ payloads, p.length < 2 ^ 32)
    (unset size : UInt32) (buffer : List UInt8) :
    (∀ s, R.unread s = payloads.flatMap (Sockets.ClientSession.message sender) →
      Sockets.serveSession receiver R unset buffer s = payloads.map .message ++ [.disconnect]) ∧
    (∀ s, R.unread s = payloads.flatMap (Sockets.SocketHandler.message sender) →
      readMessages receiver R true size s = payloads) ∧
    (∀ s, R.unread s = payloads.flatMap (Spawn.ClientSession.message host) →
      readMessages host R false size s = payloads) ∧
    (∀ s, R.unread s = payloads.flatMap (Spawn.PipeChannel.message host) →
      readMessages host R false size s = payloads) ∧
    (∀ s, R.unread s = payloads.flatMap (Stream.SessionConnector.message host) →
      readMessages host R false size s = payloads) := by
  refine ⟨?_, ?_, ?_, ?_, ?_⟩
  · intro s hs
    rw [flatMap_eq_flatMap_frame hlen fun _ => Sockets.ClientSession.message_eq_frame sender] at hs
    exact Sockets.serveSession_of_frames receiver R unset hlen buffer hs
  · intro s hs
    rw [flatMap_eq_flatMap_frame hlen fun _ => Sockets.SocketHandler.message_eq_frame sender] at hs
    exact readMessages_of_frames hlen size hs
  · intro s hs
    rw [flatMap_eq_flatMap_frame hlen fun _ => Spawn.ClientSession.message_eq_frame host] at hs
    exact readMessages_of_frames hlen size hs
  · intro s hs
    rw [flatMap_eq_flatMap_frame hlen fun _ => Spawn.PipeChannel.message_eq_frame host] at hs
    exact readMessages_of_frames hlen size hs
  · intro s hs
    rw [flatMap_eq_flatMap_frame hlen fun _ => Stream.SessionConnector.message_eq_frame host] at hs
    exact readMessages_of_frames hlen size hs

theorem transports_round_trip_two_messages :
    Sockets.serveSession .bigEndian .ofList 7 [9, 9]
        ([[1, 2], []].flatMap (Sockets.ClientSession.message .littleEndian)) =
        [.message [1, 2], .message [], .disconnect] ∧
      readMessages .littleEndian .ofList true 7
        ([[1, 2], []].flatMap (Sockets.SocketHandler.message .bigEndian)) = [[1, 2], []] := by
  have h := transports_round_trip ReadFunction.ofList .littleEndian .bigEndian .littleEndian
    [[1, 2], []] (by decide) 7 7 [9, 9]
  have h' := transports_round_trip ReadFunction.ofList .bigEndian .littleEndian .littleEndian
    [[1, 2], []] (by decide) 7 7 [9, 9]
  exact ⟨h.1 _ rfl, h'.2.1 _ rfl⟩

end CohesionIpc
