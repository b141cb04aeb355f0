import CohesionIpc.Model.ByteRepresentation

/-! The five outbound `channel::message` functions, each as the bytes it writes. -/

namespace CohesionIpc

open ByteRepresentation

/-- `static_cast<unsigned int>(payload.length())`. -/
def narrowedLength (payload : List UInt8) : UInt32 := UInt32.ofNat payload.length

/-- The common shape of the writers: a header made from the narrowed length, then a part
of the payload that may or may not depend on the narrowing. -/
def writeMessage (header : UInt32 → List UInt8) (body : UInt32 → List UInt8 → List UInt8)
    (payload : List UInt8) : List UInt8 :=
  header (narrowedLength payload) ++ body (narrowedLength payload) payload

namespace Sockets

/-- `send_scalar`: the bytes of a value after `reorder`. -/
def sendScalar (host : ByteOrder) (value : UInt32) : List UInt8 :=
  reorder host (bytes host value)

/-- `sockets::client_session::message`. -/
def ClientSession.message (host : ByteOrder) : List UInt8 → List UInt8 :=
  writeMessage (fun size => reorder host (bytes host size))
    fun size payload => payload.take size.toNat

/-- `socket_handler::message`. -/
def SocketHandler.message (host : ByteOrder) : List UInt8 → List UInt8 :=
  writeMessage (sendScalar host) fun size payload => payload.take size.toNat

end Sockets

namespace Spawn

/-- `spawn::client_session::message`. The body is written with its own length. -/
def ClientSession.message (host : ByteOrder) : List UInt8 → List UInt8 :=
  writeMessage (bytes host) fun _ payload => payload

/-- `pipe_channel::message` of the spawned program. -/
def PipeChannel.message (host : ByteOrder) : List UInt8 → List UInt8 :=
  writeMessage (bytes host) fun _ payload => payload

end Spawn

namespace Stream

/-- `stream_session_connector::message`. -/
def SessionConnector.message (host : ByteOrder) : List UInt8 → List UInt8 :=
  writeMessage (bytes host) fun size payload => payload.take size.toNat

end Stream

/-- A writer whose header is the length in `order` and whose body is not cut by the
narrowing of a length below 2^32 writes frames. -/
theorem writeMessage_eq_frame {header : UInt32 → List UInt8}
    {body : UInt32 → List UInt8 → List UInt8} {order : ByteOrder} {payload : List UInt8}
    (hheader : ∀ size, header size = bytes order size)
    (hbody : ∀ size : UInt32, size.toNat = payload.length → body size payload = payload)
    (hlen : payload.length < 2 ^ 32) :
    writeMessage header body payload = (framing order).frame payload := by
  have hsize : (narrowedLength payload).toNat = payload.length := by
    rw [narrowedLength, UInt32.toNat_ofNat']
    exact Nat.mod_eq_of_lt hlen
  rw [writeMessage, hheader, hbody _ hsize, framing_frame, narrowedLength]

end CohesionIpc
