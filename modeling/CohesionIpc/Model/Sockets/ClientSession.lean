import CohesionIpc.Foundation.Link
import CohesionIpc.Model.MessageLoop
import CohesionIpc.Model.Writers
import Mathlib.Logic.Function.Basic

/-! `sockets::client_session`: its thread runs `read_messages` over `recv`, and the destructor shuts
the socket down, closes it and waits for the thread. For every call of `recv` the thread reads
`_socket` anew, and the number goes into the kernel after that. The sockets of the server have a
linger time of 0: where it closes one, the connection is reset, and what has not been received may
be lost from any byte on. -/

namespace CohesionIpc.Sockets

/-- What a descriptor number stands for: the socket of the session, a socket of somebody else, or
nothing that can be received from. -/
inductive Target
  | own
  | foreign
  | invalid
deriving DecidableEq, Repr

/-- The thread that owns the session. In `shutDown`, `closed` and `joining` it is in the destructor,
after that call or before `join`. -/
inductive SessionOwner
  | idle
  | shutDown
  | closed
  | joining
  | destroyed
deriving DecidableEq, Repr

/-- The thread of the session: at a call of the read function, with the number that it has read from
`_socket`, inside `recv`, or elsewhere in `read_messages`. -/
inductive SessionThread
  | loading
  | calling (fd : ℕ)
  | receiving (target : Target)
  | outside
  | inDisconnect
  | ended
deriving DecidableEq, Repr

/-- `socket` is the number in `_socket`, and `down` what comes from the server. `lost`, what a close
by the server has taken away, `sentByServer` and `foreignBytes`, what the thread has taken from the
sockets of others, are observations. -/
structure ClientSession where
  socket : ℕ
  table : ℕ → Target
  down : Link UInt8
  lost : List UInt8
  closedByServer : Bool
  isShut : Bool
  owner : SessionOwner
  thread : SessionThread
  loop : MessageLoop
  sentByServer : List (List UInt8)
  foreignBytes : List UInt8

/-- Of what has not been received when the server closes, `kept` bytes are still there. `givenOut`
is another thread of the process that gets the number for a socket of its own. -/
inductive SessionEvent
  | serverSends (payload : List UInt8)
  | serverCloses (kept : ℕ)
  | arrives (n : ℕ)
  | givenOut (fd : ℕ)
  | shutsDown
  | closes
  | zeroes
  | joins
  | loads
  | enters
  | receives
  | receivesForeign (bytes : List UInt8)
  | messageReturns
  | loopEnds
  | disconnectReturns
deriving DecidableEq, Repr

namespace ClientSession

/-- `open` has returned `fd`. -/
def init (host : ByteOrder) (fd : ℕ) (table : ℕ → Target) (size : UInt32) : ClientSession where
  socket := fd
  table := Function.update table fd .own
  down := .empty
  lost := []
  closedByServer := false
  isShut := false
  owner := .idle
  thread := .loading
  loop := .init host size
  sentByServer := []
  foreignBytes := []

/-- `recv` has stored `obtained`, and the loop goes on to its next call. -/
def received (host : ByteOrder) (s : ClientSession) (obtained : List UInt8) : ClientSession :=
  let loop := s.loop.returned host true obtained
  { s with
    loop := loop
    thread := if loop.stage.requested.isSome then .loading else .outside }

/-- `recv` of `n` bytes returns although the stream goes on. Where it waits when it is asked for
none, it returns with the next byte. -/
def found (emptyRecvWaits : Bool) (n : ℕ) (arrived : List UInt8) : Bool :=
  n ≤ arrived.length ∧ ¬ (emptyRecvWaits ∧ n = 0 ∧ arrived = [])

/-- The server has closed the connection, and everything before that has come. -/
def atEnd (s : ClientSession) : Bool := s.closedByServer ∧ s.down.inFlight = []

/-- `host` is the byte order of the client and `peer` that of the server; `emptyRecvWaits` says how
`recv` of no bytes behaves. -/
def step (host peer : ByteOrder) (emptyRecvWaits : Bool) (s : ClientSession) :
    SessionEvent → Option ClientSession
  | .serverSends payload =>
      if s.closedByServer then none
      else some { s with
        down := s.down.write (SocketHandler.message peer payload)
        sentByServer := s.sentByServer ++ [payload] }
  | .serverCloses kept =>
      if s.closedByServer then none
      else some { s with
        closedByServer := true
        down := s.down.cut kept
        lost := (s.down.arrived ++ s.down.inFlight).drop kept }
  | .arrives n =>
      -- what comes after the shutdown is not kept
      if s.isShut then none else some { s with down := s.down.transfer n }
  | .givenOut fd =>
      if s.table fd = .invalid then some { s with table := Function.update s.table fd .foreign }
      else none
  | .shutsDown =>
      if s.owner = .idle then some { s with owner := .shutDown, isShut := true } else none
  | .closes =>
      if s.owner = .shutDown then some { s with
        owner := .closed
        table := if s.socket = 0 then s.table else Function.update s.table s.socket .invalid }
      else none
  | .zeroes => if s.owner = .closed then some { s with owner := .joining, socket := 0 } else none
  | .joins =>
      if s.owner = .joining ∧ s.thread = .ended then some { s with owner := .destroyed } else none
  | .loads => if s.thread = .loading then some { s with thread := .calling s.socket } else none
  | .enters =>
      match s.thread with
      | .calling fd => some { s with thread := .receiving (s.table fd) }
      | _ => none
  | .receives =>
      match s.thread, s.loop.stage.requested with
      | .receiving .own, some n =>
          if found emptyRecvWaits n s.down.arrived then
            some ({ s with down.arrived := s.down.arrived.drop n }.received host
              (s.down.arrived.take n))
          else if s.isShut ∨ s.atEnd then
            some ({ s with down.arrived := [] }.received host s.down.arrived)
          else none
      -- -1 is returned, and nothing is stored
      | .receiving .invalid, some _ => some (s.received host [])
      | _, _ => none
  | .receivesForeign bytes =>
      match s.thread, s.loop.stage.requested with
      | .receiving .foreign, some n =>
          if bytes.length ≤ n then
            some ({ s with foreignBytes := s.foreignBytes ++ bytes }.received host bytes)
          else none
      | _, _ => none
  | .messageReturns =>
      if s.thread = .outside ∧ s.loop.stage = .inMessage then
        some { s with thread := .loading, loop := s.loop.messageReturned }
      else none
  | .loopEnds =>
      if s.thread = .outside ∧ s.loop.stage = .ended then
        some { s with thread := .inDisconnect, loop := s.loop.disconnect }
      else none
  | .disconnectReturns =>
      if s.thread = .inDisconnect then some { s with thread := .ended } else none

end ClientSession

end CohesionIpc.Sockets
