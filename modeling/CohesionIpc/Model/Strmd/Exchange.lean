import CohesionIpc.Model.Strmd.Client
import CohesionIpc.Model.Strmd.ServerSession

/-! One `client_session` and one `server_session` joined by two lossless channels. Each
message and each queued continuation is kept beside the number of the request it comes
from; the sessions see the payloads only. -/

namespace CohesionIpc.Strmd

/-- A request on its way to the server. -/
structure Issued where
  payload : List UInt8
  request : ℕ

/-- The message of one `respond(responseId, value)`, made while `request` was handled;
`serial` counts the `respond` calls. -/
structure Reply where
  payload : List UInt8
  serial : ℕ
  request : ℕ
  responseId : Int32
  value : List UInt8
deriving DecidableEq, Repr

/-- A call of a request callback: the callback, what the deserializer it gets is placed in
front of, and the message that has led to it. -/
structure Call (κ : Type*) where
  callback : κ
  rest : List UInt8
  reply : Reply
deriving DecidableEq, Repr

/-- `requests` has the callbacks of the requests in the order they were made; the handle
variable of a request is the one with its number. -/
structure Exchange (κ γ : Type*) where
  client : Client κ
  server : ServerSession
  queue : List (Queued γ)
  toServer : List Issued
  toClient : List Reply
  requests : List (List (Int32 × κ))
  responds : ℕ
  calls : List (Call κ)

/-- A request with its own fresh handle, the release of the handle of a request, or a
delivery; `e` is the environment in which the code of the server runs. -/
inductive ExchangeOp (κ ε : Type*)
  | request (id : Int32) (payload : List UInt8) (responseId : Int32) (callback : κ)
  | requestMany (id : Int32) (payload : List UInt8) (callback : List (Int32 × κ))
  | release (request : ℕ)
  | deliverToServer (e : ε)
  | runContinuation (e : ε)
  | deliverToClient

variable {κ ε γ : Type*}

def ExchangeOp.issues : ExchangeOp κ ε → Bool
  | .request .. | .requestMany .. => true
  | _ => false

/-- The messages of `respond` calls that are numbered from `serial` on. -/
def Reply.ofSent (request : ℕ) : ℕ → List Sent → List Reply
  | _, [] => []
  | serial, x :: xs =>
      ⟨x.payload, serial, request, x.responseId, x.value⟩ :: ofSent request (serial + 1) xs

namespace Exchange

def init (apartment : Bool) : Exchange κ γ where
  client := .init
  server := ⟨[], apartment⟩
  queue := []
  toServer := []
  toClient := []
  requests := []
  responds := 0
  calls := []

/-- The request has been made by `op`; its message is in the client's buffer. -/
def issue (packer : Packer) (s : Exchange κ γ) (op : HandleOp κ) (callbacks : List (Int32 × κ)) :
    Option (Exchange κ γ) :=
  (s.client.step packer op).map fun client =>
    { s with
      client := client
      toServer := s.toServer ++ [⟨client.session.buffer, s.requests.length⟩]
      requests := s.requests ++ [callbacks] }

/-- The server has run a handler or a continuation on behalf of `request`. -/
def handled (s : Exchange κ γ) (request : ℕ) (done : Handled γ) : Exchange κ γ :=
  { s with
    server := done.session
    queue := s.queue ++ (done.scheduled.map fun task => ⟨task, request⟩).toList
    toClient := s.toClient ++ Reply.ofSent request s.responds done.sent
    responds := s.responds + done.sent.length }

def step (code : ServerCode ε γ) (packer : Packer) (s : Exchange κ γ) :
    ExchangeOp κ ε → Option (Exchange κ γ)
  | .request id payload responseId callback =>
      s.issue packer (.request s.requests.length id payload responseId callback)
        [(responseId, callback)]
  | .requestMany id payload callback =>
      if (callback.map Prod.fst).Nodup then
        s.issue packer (.requestMany s.requests.length id payload callback) callback
      else none
  | .release request =>
      (s.client.step packer (.release request)).map fun client => { s with client := client }
  | .deliverToServer e =>
      match s.toServer with
      | [] => none
      | m :: rest =>
          some ({ s with toServer := rest }.handled m.request
            (s.server.message code packer e m.payload))
  | .runContinuation e =>
      match s.queue with
      | [] => none
      | q :: rest =>
          some ({ s with queue := rest }.handled q.request (s.server.runTask code packer e q.task))
  | .deliverToClient =>
      match s.toClient with
      | [] => none
      | m :: rest =>
          some { s with
            toClient := rest
            calls :=
              match s.client.session.message packer m.payload with
              | .call callback d => s.calls ++ [⟨callback, d, m⟩]
              | _ => s.calls }

end Exchange

end CohesionIpc.Strmd
