import CohesionIpc.Foundation.Pipe
import CohesionIpc.Model.MessageLoop
import CohesionIpc.Model.Writers

/-! `spawn::client_session` and `main` of the program that it has spawned, from the start of the
session's thread on. What the client starts later inherits the write end of the pipe to the server;
the server's own ends of the two pipes nobody else holds, and nothing outside ends the server. The
server writes from within the calls of its session, the client from the owner's thread or from
within a call of `inbound`.

`client_session::message` takes no lock. The model has the runs in which the two do not write at the
same time, and in which, while a message is being written, the destructor is not called and no
`execve` fails: the forked process would flush its copy of the stream. -/

namespace CohesionIpc.Spawn

/-- The thread that owns the session. `killed` stands for the end of the whole client process: by
the signal of a pipe without a reader, by an exception that leaves the thread of the session, or
by a write to the stream that the destructor has taken away. -/
inductive Owner
  | idle
  | inMessage
  | joining
  | destroyed
  | killed
deriving DecidableEq, Repr

/-- The thread of the session. In `waiting` it is in the deleter of the `wait_handle`. -/
inductive ReaderThread
  | reading
  | inDisconnect
  | waiting
  | ended
deriving DecidableEq, Repr

inductive Termination
  | returned
  | aborted
deriving DecidableEq, Repr

/-- `main` of the spawned program, which is in `create_session` first. -/
inductive Main
  | creating
  | reading
  | inDisconnect
  | exited (how : Termination)
deriving DecidableEq, Repr

/-- `si_status`: the value that `main` returns, or the number of `SIGABRT`. -/
def Termination.siStatus : Termination → ℤ
  | .returned => 0
  | .aborted => 6

/-- `replying` says that a call of `inbound` is inside `client_session::message`, and
`exitHandler` holds what the exit handler has been called with. `heirs` counts the other processes
that have the write end of the pipe to the server. `sentByClient` and `sentByServer` are
observations. -/
structure Conversation where
  toServer : Pipe UInt8
  toClient : Pipe UInt8
  owner : Owner
  thread : ReaderThread
  inbound : MessageLoop
  replying : Bool
  exitHandler : List ℤ
  main : Main
  session : MessageLoop
  heirs : ℕ
  sentByClient : List (List UInt8)
  sentByServer : List (List UInt8)
deriving DecidableEq, Repr

/-- `inboundThrows` stands for any exception in the thread of the session: in a call of `inbound`,
or of a vector that cannot be resized. -/
inductive ClientEvent
  | ownerWrites (payload : List UInt8)
  | ownerReturns
  | inboundWrites (payload : List UInt8)
  | inboundWritten
  | flushes (n : ℕ)
  | pipeBreaks
  | destroy
  | joins
  | fills (n : ℕ)
  | reads
  | messageReturns
  | inboundThrows
  | loopEnds
  | disconnectReturns
  | waited
deriving DecidableEq, Repr

/-- `sessionThrows` likewise for `main`. -/
inductive ServerEvent
  | sessionCreated
  | sessionWrites (payload : List UInt8)
  | flushes (n : ℕ)
  | fills (n : ℕ)
  | reads
  | messageReturns
  | sessionThrows
  | loopEnds
  | mainReturns
deriving DecidableEq, Repr

/-- Another process: the client, or a process with the end, starts one, or one ends. -/
inductive HeirEvent
  | started
  | ended
deriving DecidableEq, Repr

inductive Event
  | client (e : ClientEvent)
  | server (e : ServerEvent)
  | heir (e : HeirEvent)
deriving DecidableEq, Repr

namespace Conversation

def init (host : ByteOrder) (clientSize serverSize : UInt32) : Conversation where
  toServer := .empty
  toClient := .empty
  owner := .idle
  thread := .reading
  inbound := .init host clientSize
  replying := false
  exitHandler := []
  main := .creating
  session := .init host serverSize
  heirs := 0
  sentByClient := []
  sentByServer := []

/-- `_outbound` holds the stream. -/
def outbound (s : Conversation) : Bool := s.owner = .idle ∨ s.owner = .inMessage

/-- A call of the user's `inbound` is running. -/
def inInbound (s : Conversation) : Bool :=
  s.inbound.stage = .inMessage ∨ s.thread = .inDisconnect

/-- A call of the user's session is running in the server. -/
def inSession (s : Conversation) : Bool :=
  s.main = .creating ∨ s.main = .reading ∧ s.session.stage = .inMessage ∨ s.main = .inDisconnect

def exited (s : Conversation) : Bool :=
  match s.main with
  | .exited _ => true
  | .creating | .reading | .inDisconnect => false

/-- The vector of the loop has been resized, or that has failed. -/
def resizing (l : MessageLoop) : Bool :=
  match l.stage with
  | .payload _ => true
  | .header | .inMessage | .ended => false

/-- The read function returns: a read in the thread of the session or in `main`. -/
def readReturns (host : ByteOrder) (p : Pipe UInt8) (l : MessageLoop) :
    Option (Pipe UInt8 × MessageLoop) :=
  l.stage.requested.bind fun n => (p.read n).map fun r => (r.2, l.returned host false r.1)

def exit (s : Conversation) (how : Termination) : Conversation :=
  { s with main := .exited how, toClient := s.toClient.close }

def clientStep (host : ByteOrder) (capacity : ℕ) (s : Conversation) :
    ClientEvent → Option Conversation
  | .ownerWrites payload =>
      if s.owner = .idle ∧ s.replying = false then some { s with
        owner := .inMessage
        toServer := s.toServer.put (ClientSession.message host payload)
        sentByClient := s.sentByClient ++ [payload] }
      else none
  | .ownerReturns =>
      if s.owner = .inMessage ∧ s.toServer.unflushed = [] then some { s with owner := .idle }
      else none
  | .inboundWrites payload =>
      if s.inInbound ∧ s.replying = false ∧ s.owner ≠ .inMessage then
        if s.outbound then some { s with
          replying := true
          toServer := s.toServer.put (ClientSession.message host payload)
          sentByClient := s.sentByClient ++ [payload] }
        else some { s with owner := .killed }
      else none
  | .inboundWritten =>
      if s.replying ∧ s.toServer.unflushed = [] then some { s with replying := false } else none
  | .flushes n =>
      if s.exited then none else (s.toServer.flush capacity n).map ({ s with toServer := · })
  | .pipeBreaks =>
      if s.exited ∧ s.toServer.unflushed ≠ [] then some { s with owner := .killed } else none
  | .destroy =>
      if s.owner = .idle ∧ s.replying = false then some { s with
        owner := .joining
        toServer := s.toServer.release (0 < s.heirs) }
      else none
  | .joins =>
      if s.owner = .joining ∧ s.thread = .ended then some { s with owner := .destroyed } else none
  | .fills n =>
      s.inbound.stage.requested.bind fun wanted =>
        (s.toClient.fill wanted n).map ({ s with toClient := · })
  | .reads =>
      (readReturns host s.toClient s.inbound).map fun r =>
        { s with toClient := r.1, inbound := r.2 }
  | .messageReturns =>
      if s.inbound.stage = .inMessage ∧ s.replying = false then
        some { s with inbound := s.inbound.messageReturned }
      else none
  | .inboundThrows =>
      if (s.inInbound ∨ resizing s.inbound) ∧ s.replying = false then
        some { s with owner := .killed }
      else none
  | .loopEnds =>
      if s.thread = .reading ∧ s.inbound.stage = .ended then
        -- the server has disconnected by itself, unless the destructor has closed the stream
        if s.outbound then some { s with
          thread := .inDisconnect
          inbound := s.inbound.disconnect }
        else some { s with thread := .waiting }
      else none
  | .disconnectReturns =>
      if s.thread = .inDisconnect ∧ s.replying = false then some { s with thread := .waiting }
      else none
  | .waited =>
      match s.thread, s.main with
      | .waiting, .exited how => some { s with
          thread := .ended
          exitHandler := s.exitHandler ++ [how.siStatus] }
      | _, _ => none

def serverStep (host : ByteOrder) (capacity : ℕ) (s : Conversation) :
    ServerEvent → Option Conversation
  | .sessionCreated =>
      if s.main = .creating ∧ s.toClient.unflushed = [] then some { s with main := .reading }
      else none
  | .sessionWrites payload =>
      if s.inSession ∧ s.toClient.unflushed = [] then some { s with
        toClient := s.toClient.put (PipeChannel.message host payload)
        sentByServer := s.sentByServer ++ [payload] }
      else none
  | .flushes n => (s.toClient.flush capacity n).map ({ s with toClient := · })
  | .fills n =>
      if s.main = .reading then
        s.session.stage.requested.bind fun wanted =>
          (s.toServer.fill wanted n).map ({ s with toServer := · })
      else none
  | .reads =>
      if s.main = .reading then
        (readReturns host s.toServer s.session).map fun r =>
          { s with toServer := r.1, session := r.2 }
      else none
  | .messageReturns =>
      if s.main = .reading ∧ s.session.stage = .inMessage ∧ s.toClient.unflushed = [] then
        some { s with session := s.session.messageReturned }
      else none
  | .sessionThrows =>
      if (s.inSession ∨ s.main = .reading ∧ resizing s.session) ∧ s.toClient.unflushed = [] then
        some (s.exit .aborted)
      else none
  | .loopEnds =>
      if s.main = .reading ∧ s.session.stage = .ended then some { s with
        main := .inDisconnect
        session := s.session.disconnect }
      else none
  | .mainReturns =>
      if s.main = .inDisconnect ∧ s.toClient.unflushed = [] then some (s.exit .returned) else none

def heirStep (s : Conversation) : HeirEvent → Option Conversation
  | .started =>
      if s.outbound ∨ 0 < s.heirs then some { s with heirs := s.heirs + 1 } else none
  | .ended =>
      match s.heirs with
      | 0 => none
      | heirs + 1 => some { s with
          heirs := heirs
          toServer := s.toServer.release (s.outbound ∨ 0 < heirs) }

/-- What happens after the end of the client process is left out. -/
def step (host : ByteOrder) (capacity : ℕ) (s : Conversation) : Event → Option Conversation
  | .client e => if s.owner = .killed then none else s.clientStep host capacity e
  | .server e => if s.owner = .killed then none else s.serverStep host capacity e
  | .heir e => if s.owner = .killed then none else s.heirStep e

end Conversation

end CohesionIpc.Spawn
