import CohesionIpc.Foundation.Link
import CohesionIpc.Model.Sockets.HandleSession
import CohesionIpc.Model.Strmd.Exchange
import CohesionIpc.Model.Writers

/-! The sessions of an exchange at the two ends of a socket: their messages go out as bytes, the
bytes come in portions, and each end takes its messages out of them as its endpoint does. -/

namespace CohesionIpc.Strmd

/-- `up` is the stream to the server and `down` the one to the client. `serving` says whether the
loop of the sockets server runs, and `serverBuffer` is its buffer; `size` and `buffer` are the
variables of `read_messages` in the thread of the client. `written` has the payloads passed to the
two outbound channels. -/
structure WiredExchange (κ γ : Type*) where
  client : Client κ
  server : ServerSession
  clientAlive : Bool
  serving : Bool
  queue : List (Task γ)
  up : Link UInt8
  down : Link UInt8
  serverBuffer : List UInt8
  size : List UInt8
  buffer : List UInt8
  requests : ℕ
  calls : List (κ × List UInt8)
  written : List (List UInt8)

/-- `unset` is what an uninitialised header holds in the server. -/
inductive WiredOp (κ ε : Type*)
  | request (id : Int32) (payload : List UInt8) (responseId : Int32) (callback : κ)
  | requestMany (id : Int32) (payload : List UInt8) (callback : List (Int32 × κ))
  | release (request : ℕ)
  | transferUp (n : ℕ)
  | transferDown (n : ℕ)
  | deliverToServer (unset : UInt32) (e : ε)
  | runContinuation (e : ε)
  | deliverToClient

/-- The byte orders of the two hosts. -/
structure Hosts where
  client : ByteOrder
  server : ByteOrder

variable {κ ε γ : Type*}

def WiredOp.issues : WiredOp κ ε → Bool
  | .request .. | .requestMany .. => true
  | _ => false

def WiredOp.serves : WiredOp κ ε → Bool
  | .deliverToServer .. => true
  | _ => false

/-- What an operation is on the channels of whole messages. -/
def WiredOp.exchangeOp? : WiredOp κ ε → Option (ExchangeOp κ ε)
  | .request id payload responseId callback => some (.request id payload responseId callback)
  | .requestMany id payload callback => some (.requestMany id payload callback)
  | .release n => some (.release n)
  | .transferUp _ | .transferDown _ => none
  | .deliverToServer _ e => some (.deliverToServer e)
  | .runContinuation e => some (.runContinuation e)
  | .deliverToClient => some .deliverToClient

namespace WiredExchange

/-- `size` is what the header of `read_messages` holds on the stack. -/
def init (hosts : Hosts) (apartment : Bool) (size : UInt32) : WiredExchange κ γ where
  client := .init
  server := ⟨[], apartment⟩
  clientAlive := true
  serving := true
  queue := []
  up := .empty
  down := .empty
  serverBuffer := []
  size := ByteRepresentation.bytes hosts.client size
  buffer := []
  requests := 0
  calls := []
  written := []

def issue (hosts : Hosts) (packer : Packer) (s : WiredExchange κ γ) (op : HandleOp κ) :
    Option (WiredExchange κ γ) :=
  (s.client.step packer op).map fun client =>
    { s with
      client := client
      up := s.up.write (Sockets.ClientSession.message hosts.client client.session.buffer)
      requests := s.requests + 1
      written := s.written ++ [client.session.buffer] }

/-- The server has run a handler or a continuation. -/
def handled (hosts : Hosts) (s : WiredExchange κ γ) (done : Handled γ) : WiredExchange κ γ :=
  { s with
    server := done.session
    queue := s.queue ++ done.scheduled.toList
    down := s.down.write
      (done.sent.flatMap fun x => Sockets.SocketHandler.message hosts.server x.payload)
    written := s.written ++ done.sent.map Sent.payload }

/-- A frame that has not come in full keeps the reader waiting in `recv`. -/
def ready (l : Link UInt8) : Bool :=
  ((framing .bigEndian).next? l.arrived).isSome

/-- An exception that a handler throws ends the loop of the server. -/
def deliverToServer (hosts : Hosts) (code : ServerCode ε γ) (packer : Packer)
    (s : WiredExchange κ γ) (unset : UInt32) (e : ε) : Option (WiredExchange κ γ) :=
  let served := Sockets.handleSession hosts.server .ofList unset s.serverBuffer s.up.arrived
  let s' := { s with up.arrived := served.stream, serverBuffer := served.buffer }
  match served.call with
  | .message payload =>
      let done := s.server.message code packer e payload
      some { s'.handled hosts done with serving := !done.raised }
  | .disconnect => none

/-- Nothing catches an exception in the thread of the client, and so it ends the program. -/
def deliverToClient (hosts : Hosts) (packer : Packer) (s : WiredExchange κ γ) :
    Option (WiredExchange κ γ) :=
  (readMessagesTurn hosts.client .ofList true ⟨s.size, s.buffer, s.down.arrived⟩).map fun r =>
    let s' := { s with size := r.size, buffer := r.buffer, down.arrived := r.stream }
    match s.client.session.message packer r.buffer with
    | .raised => { s' with clientAlive := false }
    | .ignored => s'
    | .call callback d => { s' with calls := s.calls ++ [(callback, d)] }

def step (hosts : Hosts) (code : ServerCode ε γ) (packer : Packer) (s : WiredExchange κ γ) :
    WiredOp κ ε → Option (WiredExchange κ γ)
  | .request id payload responseId callback =>
      if s.clientAlive then
        s.issue hosts packer (.request s.requests id payload responseId callback)
      else none
  | .requestMany id payload callback =>
      if s.clientAlive ∧ (callback.map Prod.fst).Nodup then
        s.issue hosts packer (.requestMany s.requests id payload callback)
      else none
  | .release request =>
      if s.clientAlive then
        (s.client.step packer (.release request)).map fun client => { s with client := client }
      else none
  | .transferUp n => some { s with up := s.up.transfer n }
  | .transferDown n => some { s with down := s.down.transfer n }
  | .deliverToServer unset e =>
      if s.serving ∧ ready s.up then s.deliverToServer hosts code packer unset e else none
  | .runContinuation e =>
      match s.queue with
      | [] => none
      | task :: rest =>
          some ({ s with queue := rest }.handled hosts (s.server.runTask code packer e task))
  | .deliverToClient =>
      if s.clientAlive ∧ ready s.down then s.deliverToClient hosts packer else none

end WiredExchange

end CohesionIpc.Strmd
