import CohesionIpc.Model.CancellableRead.Unix
import CohesionIpc.Model.ReadMessages

/-! `stream_session_connector`: the worker runs `read_messages` over a `cancellable_read` on
Unix, and the destructor cancels the read and joins the worker. -/

namespace CohesionIpc.Stream

open ByteRepresentation CancellableRead.Unix

/-- How the function of the worker has come to its end: it has called `disconnect`, or one of
the calls in it has thrown. -/
inductive Exit
  | disconnected
  | factoryThrew
  | readCancelled
  | selectFailed
  | resizeThrew
  | messageThrew
deriving DecidableEq, Repr

/-- Where the worker is. In `header` and `payload` it is at a call of `_reader.read`. -/
inductive Worker
  | creating
  | header
  | payload (n : ℕ)
  | inMessage
  | inDisconnect
  | exited (how : Exit)
deriving DecidableEq, Repr

inductive Destructor
  | notCalled
  | joining
  | returned
deriving DecidableEq, Repr

/-- `input` is the inbound pipe with `_reader`, `size` and `buffer` are the variables of
`read_messages`, and `log` holds the calls that the session has got. `sent` is an observation:
all the bytes that have arrived. -/
structure SessionConnector where
  input : State
  size : List UInt8
  buffer : List UInt8
  worker : Worker
  log : List ChannelCall
  destructor : Destructor
  sent : List UInt8

/-- `reads` is what happens inside a read, from its call to its return; `resizeThrows` takes the
place of `readReturns` when there is no memory for the payload. -/
inductive Event
  | factoryReturns
  | factoryThrows
  | readStarts
  | reads (l : Label)
  | selectFails
  | readReturns
  | resizeThrows
  | messageReturns
  | messageThrows
  | disconnectReturns
  | arrive (bytes : List UInt8)
  | close
  | destroy
  | joins
deriving DecidableEq, Repr

/-- The steps of the reader between the call of `read` and its return. -/
def insideRead : Label → Bool
  | .selectInterrupted | .select | .testSignal | .testData | .readSome _ | .readEof
  | .freadReturn => true
  | .readCall _ | .readReturn | .cancel | .arrive _ | .close => false

/-- A read of `n` bytes that have come. -/
def readOf (n : ℕ) : List Event :=
  [.readStarts, .reads .select, .reads .testSignal, .reads .testData, .reads (.readSome n),
    .reads .freadReturn, .readReturns]

theorem reader_ne_outside {x x' : State} {l : Label} (h : Step x l x') (hl : insideRead l) :
    x.reader ≠ .outside := by
  intro hx
  cases h with
  | readCall | readReturn | cancel | arrive | close => cases hl
  | selectInterrupted h | select h | signalled h | unsignalled h | dataReady h | dataNotReady h
  | readSome _ h | readEof h | freadReturn h =>
      rw [hx] at h
      cases h

/-- The number of bytes that the worker reads next. -/
def Worker.requested : Worker → Option ℕ
  | .header => some 4
  | .payload n => some n
  | .creating | .inMessage | .inDisconnect | .exited _ => none

namespace SessionConnector

/-- The worker is started; `size` holds whatever was on the stack. -/
def init (host : ByteOrder) (size : UInt32) : SessionConnector where
  input := CancellableRead.Unix.init
  size := bytes host size
  buffer := []
  worker := .creating
  log := []
  destructor := .notCalled
  sent := []

/-- The loop of `read_messages` when a read has returned; what it returned for a payload is
not looked at. -/
def returned (host : ByteOrder) (s : SessionConnector) (outcome : Outcome) : SessionConnector :=
  let s := { s with input := { s.input with reader := .outside } }
  match outcome with
  | .cancelledException => { s with worker := .exited .readCancelled }
  | .bytesRead bytes =>
      match s.worker with
      | .header =>
          let size := Buffer.overwrite s.size bytes
          if bytes.length = 4 then
            let n := (value host size).toNat
            { s with size := size, buffer := Buffer.resize 0 s.buffer n, worker := .payload n }
          else { s with size := size, worker := .inDisconnect, log := s.log ++ [.disconnect] }
      | .payload _ =>
          let buffer := Buffer.overwrite s.buffer bytes
          { s with buffer := buffer, worker := .inMessage, log := s.log ++ [.message buffer] }
      | .creating | .inMessage | .inDisconnect | .exited _ => s

def step (host : ByteOrder) (s : SessionConnector) : Event → Option SessionConnector
  | .factoryReturns => if s.worker = .creating then some { s with worker := .header } else none
  | .factoryThrows =>
      if s.worker = .creating then some { s with worker := .exited .factoryThrew } else none
  | .readStarts =>
      match s.worker.requested with
      | some n => (CancellableRead.Unix.step s.input (.readCall n)).map ({ s with input := · })
      | none => none
  | .reads l =>
      if insideRead l then (CancellableRead.Unix.step s.input l).map ({ s with input := · })
      else none
  | .selectFails =>
      match s.input.reader with
      | .selecting _ => some { s with
          input := { s.input with reader := .outside }
          worker := .exited .selectFailed }
      | _ => none
  | .readReturns =>
      match s.input.reader with
      | .finished outcome => some (s.returned host outcome)
      | _ => none
  | .resizeThrows =>
      match s.input.reader, s.worker with
      | .finished (.bytesRead bytes), .header =>
          if bytes.length = 4 then some { s with
            input := { s.input with reader := .outside }
            size := Buffer.overwrite s.size bytes
            worker := .exited .resizeThrew }
          else none
      | _, _ => none
  | .messageReturns => if s.worker = .inMessage then some { s with worker := .header } else none
  | .messageThrows =>
      if s.worker = .inMessage then some { s with worker := .exited .messageThrew } else none
  | .disconnectReturns =>
      if s.worker = .inDisconnect then some { s with worker := .exited .disconnected } else none
  | .arrive bytes =>
      (CancellableRead.Unix.step s.input (.arrive bytes)).map fun input =>
        { s with input := input, sent := s.sent ++ bytes }
  | .close => (CancellableRead.Unix.step s.input .close).map ({ s with input := · })
  | .destroy =>
      if s.destructor = .notCalled then
        (CancellableRead.Unix.step s.input .cancel).map fun input =>
          { s with input := input, destructor := .joining }
      else none
  | .joins =>
      match s.destructor, s.worker with
      | .joining, .exited _ => some { s with destructor := .returned }
      | _, _ => none

/-- The steps, one rule per branch of the source. -/
inductive Taken (host : ByteOrder) (s : SessionConnector) : Event → SessionConnector → Prop
  | factoryReturns (hw : s.worker = .creating) :
      Taken host s .factoryReturns { s with worker := .header }
  | factoryThrows (hw : s.worker = .creating) :
      Taken host s .factoryThrows { s with worker := .exited .factoryThrew }
  | readStarts {n : ℕ} {input : State} (hn : s.worker.requested = some n)
      (h : Step s.input (.readCall n) input) : Taken host s .readStarts { s with input := input }
  | reads {l : Label} {input : State} (hl : insideRead l) (h : Step s.input l input) :
      Taken host s (.reads l) { s with input := input }
  | selectFails {size : ℕ} (h : s.input.reader = .selecting size) : Taken host s .selectFails
      { s with input := { s.input with reader := .outside }, worker := .exited .selectFailed }
  | cancelled (h : s.input.reader = .finished .cancelledException) : Taken host s .readReturns
      { s with input := { s.input with reader := .outside }, worker := .exited .readCancelled }
  | headerRead {bytes : List UInt8} (h : s.input.reader = .finished (.bytesRead bytes))
      (hw : s.worker = .header) (hlen : bytes.length = 4) : Taken host s .readReturns
      { s with
        input := { s.input with reader := .outside }
        size := Buffer.overwrite s.size bytes
        buffer := Buffer.resize 0 s.buffer (value host (Buffer.overwrite s.size bytes)).toNat
        worker := .payload (value host (Buffer.overwrite s.size bytes)).toNat }
  | headerCut {bytes : List UInt8} (h : s.input.reader = .finished (.bytesRead bytes))
      (hw : s.worker = .header) (hlen : bytes.length ≠ 4) : Taken host s .readReturns
      { s with
        input := { s.input with reader := .outside }
        size := Buffer.overwrite s.size bytes
        worker := .inDisconnect
        log := s.log ++ [.disconnect] }
  | payloadRead {n : ℕ} {bytes : List UInt8} (h : s.input.reader = .finished (.bytesRead bytes))
      (hw : s.worker = .payload n) : Taken host s .readReturns
      { s with
        input := { s.input with reader := .outside }
        buffer := Buffer.overwrite s.buffer bytes
        worker := .inMessage
        log := s.log ++ [.message (Buffer.overwrite s.buffer bytes)] }
  | stray {bytes : List UInt8} (h : s.input.reader = .finished (.bytesRead bytes))
      (hw : s.worker.requested = none) : Taken host s .readReturns
      { s with input := { s.input with reader := .outside } }
  | resizeThrows {bytes : List UInt8} (h : s.input.reader = .finished (.bytesRead bytes))
      (hw : s.worker = .header) : Taken host s .resizeThrows
      { s with
        input := { s.input with reader := .outside }
        size := Buffer.overwrite s.size bytes
        worker := .exited .resizeThrew }
  | messageReturns (hw : s.worker = .inMessage) :
      Taken host s .messageReturns { s with worker := .header }
  | messageThrows (hw : s.worker = .inMessage) :
      Taken host s .messageThrows { s with worker := .exited .messageThrew }
  | disconnectReturns (hw : s.worker = .inDisconnect) :
      Taken host s .disconnectReturns { s with worker := .exited .disconnected }
  | arrive {bytes : List UInt8} {input : State} (h : Step s.input (.arrive bytes) input) :
      Taken host s (.arrive bytes) { s with input := input, sent := s.sent ++ bytes }
  | close {input : State} (h : Step s.input .close input) :
      Taken host s .close { s with input := input }
  | destroy {input : State} (hd : s.destructor = .notCalled) (h : Step s.input .cancel input) :
      Taken host s .destroy { s with input := input, destructor := .joining }
  | joins {how : Exit} (hd : s.destructor = .joining) (hw : s.worker = .exited how) :
      Taken host s .joins { s with destructor := .returned }

theorem returned_taken {host : ByteOrder} {s : SessionConnector} {outcome : Outcome}
    (h : s.input.reader = .finished outcome) :
    Taken host s .readReturns (s.returned host outcome) := by
  cases outcome with
  | cancelledException => exact .cancelled h
  | bytesRead bytes =>
      simp only [returned]
      cases hw : s.worker with
      | header =>
          simp only
          split
          · rename_i hlen
            exact .headerRead h hw hlen
          · rename_i hlen
            exact .headerCut h hw hlen
      | payload n => exact .payloadRead h hw
      | creating | inMessage | inDisconnect | exited =>
          have hstray := @Taken.stray host s bytes h (by rw [hw]; rfl)
          rwa [hw] at hstray

theorem step_taken {host : ByteOrder} {s t : SessionConnector} {e : Event}
    (ht : s.step host e = some t) : Taken host s e t := by
  cases e with
  | factoryReturns =>
      simp only [step, Option.ite_none_right_eq_some, Option.some.injEq] at ht
      obtain ⟨hw, rfl⟩ := ht
      exact .factoryReturns hw
  | factoryThrows =>
      simp only [step, Option.ite_none_right_eq_some, Option.some.injEq] at ht
      obtain ⟨hw, rfl⟩ := ht
      exact .factoryThrows hw
  | readStarts =>
      simp only [step] at ht
      split at ht
      · rename_i n hn
        rw [Option.map_eq_some_iff] at ht
        obtain ⟨input, hinput, rfl⟩ := ht
        exact .readStarts hn (step_cases hinput)
      · cases ht
  | reads l =>
      simp only [step, Option.ite_none_right_eq_some, Option.map_eq_some_iff] at ht
      obtain ⟨hl, input, hinput, rfl⟩ := ht
      exact .reads hl (step_cases hinput)
  | selectFails =>
      simp only [step] at ht
      split at ht
      · rename_i size h
        cases ht
        exact .selectFails h
      · cases ht
  | readReturns =>
      simp only [step] at ht
      split at ht
      · rename_i outcome h
        cases ht
        exact returned_taken h
      · cases ht
  | resizeThrows =>
      simp only [step] at ht
      split at ht
      · rename_i bytes h hw
        rw [Option.ite_none_right_eq_some, Option.some.injEq] at ht
        obtain ⟨-, rfl⟩ := ht
        exact .resizeThrows h hw
      · cases ht
  | messageReturns =>
      simp only [step, Option.ite_none_right_eq_some, Option.some.injEq] at ht
      obtain ⟨hw, rfl⟩ := ht
      exact .messageReturns hw
  | messageThrows =>
      simp only [step, Option.ite_none_right_eq_some, Option.some.injEq] at ht
      obtain ⟨hw, rfl⟩ := ht
      exact .messageThrows hw
  | disconnectReturns =>
      simp only [step, Option.ite_none_right_eq_some, Option.some.injEq] at ht
      obtain ⟨hw, rfl⟩ := ht
      exact .disconnectReturns hw
  | arrive bytes =>
      simp only [step, Option.map_eq_some_iff] at ht
      obtain ⟨input, hinput, rfl⟩ := ht
      exact .arrive (step_cases hinput)
  | close =>
      simp only [step, Option.map_eq_some_iff] at ht
      obtain ⟨input, hinput, rfl⟩ := ht
      exact .close (step_cases hinput)
  | destroy =>
      simp only [step, Option.ite_none_right_eq_some, Option.map_eq_some_iff] at ht
      obtain ⟨hd, input, hinput, rfl⟩ := ht
      exact .destroy hd (step_cases hinput)
  | joins =>
      simp only [step] at ht
      split at ht
      · rename_i how hd hw
        cases ht
        exact .joins hd hw
      · cases ht

end SessionConnector

end CohesionIpc.Stream
