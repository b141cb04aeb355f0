import CohesionIpc.Foundation.Transition
import CohesionIpc.Model.Sockets.HandleSession
import CohesionIpc.Model.Writers

/-! `sockets::server`: the handlers and the loop of `socket_handler::run`, beside the
connections as the operating system holds them. A pass of the loop is split into one step
for each handler, so that anything may arrive between two of them. -/

namespace CohesionIpc.Sockets

open ByteRepresentation

/-- The listening socket, the connection of `connect_aux`, and those of the clients in the
order in which they connect. -/
inductive Socket
  | listener
  | aux
  | client (n : ℕ)
deriving DecidableEq, Repr

/-- A connection: all the bytes its peer has sent, those not received yet, whether the peer
has closed it, how often `create_session` was called for it, and the calls its session got
on the inbound channel. -/
structure Connection where
  sent : List UInt8
  inbox : List UInt8
  closed : Bool
  created : ℕ
  log : List ChannelCall
deriving DecidableEq, Repr

inductive HandlerFunction
  | acceptPreinit
  | acceptRegular
  | handlePreinit
  | handleSession
  | handleAux
deriving DecidableEq, Repr

/-- `socket_handler`. -/
structure Handler where
  id : UInt32
  handler : HandlerFunction
  socket : Socket
deriving DecidableEq, Repr

/-- Whether `run` goes on, and how it has ended otherwise: through `exit`, with an
exception, because `select` failed, or by an advance from an erased element. -/
inductive Loop
  | running
  | exited
  | raised
  | selectFailed
  | undefined
deriving DecidableEq, Repr

/-- What the server relies on: whether the session factory raises for a connection, whether
`message` of a session raises at the last of the calls it has got, and whether `recv` of no bytes
waits until there is something to read, as it does on Linux. A session comes back from each of its
calls: what it sends on the thread of the loop finds room. -/
structure Surroundings where
  createRaises : Socket → Bool
  messageRaises : Socket → List ChannelCall → Bool
  emptyRecvWaits : Bool

/-- `_handlers` is `visited ++ pending`, and `pending` is what the current pass has still to
look at; `ready` is the set that `select` has left. -/
structure Server where
  conns : Socket → Connection
  clients : ℕ
  backlog : List Socket
  nextId : UInt32
  buffer : List UInt8
  visited : List Handler
  pending : List Handler
  ready : List Socket
  stopSent : Bool
  loop : Loop

/-- What happens next. `disconnect` is a call on the outbound channel of a session; one that
is made while a handler runs, or by the destructor of a session, comes before the step of
that handler. In `serve` the handler that is next in the pass gets its turn: `unset` is
what an uninitialised union holds, and `fails` makes an operating system call of the
acceptor fail. -/
inductive Event
  | connect
  | send (n : ℕ) (bytes : List UInt8)
  | close (n : ℕ)
  | disconnect (id : UInt32)
  | stop
  | select
  | selectFails
  | serve (unset : UInt32) (fails : Bool)
deriving DecidableEq, Repr

def initMagic : UInt32 := 0xFFFFFFFE

/-- The peer writes to a connection. -/
def Connection.receive (k : Connection) (bytes : List UInt8) : Connection :=
  { k with sent := k.sent ++ bytes, inbox := k.inbox ++ bytes }

/-- `recv` in `handle_session` waits: for the rest of a frame, or, where it does so when it is asked
for no bytes, for anything behind an empty frame. -/
def Connection.waits (emptyRecvWaits : Bool) (k : Connection) : Bool :=
  !k.closed && match (framing .bigEndian).next? k.inbox with
    | none => true
    | some (payload, stream) => emptyRecvWaits && payload.isEmpty && stream.isEmpty

theorem Connection.waits_iff {emptyRecvWaits : Bool} {k : Connection} :
    k.waits emptyRecvWaits = true ↔ k.closed = false ∧
      ((framing .bigEndian).next? k.inbox = none ∨
        emptyRecvWaits = true ∧ (framing .bigEndian).next? k.inbox = some ([], [])) := by
  rw [Connection.waits]
  cases (framing .bigEndian).next? k.inbox with
  | none => simp
  | some pair => simp [Prod.ext_iff, and_assoc]

theorem Connection.waits_of_closed {k : Connection} (hclosed : k.closed = true)
    (emptyRecvWaits : Bool) : k.waits emptyRecvWaits = false := by
  rw [Connection.waits, hclosed]
  rfl

/-- Where `recv` does not wait, what is less than a frame is the end of the stream. -/
theorem Connection.closed_of_none {emptyRecvWaits : Bool} {k : Connection}
    (hwaits : ¬ k.waits emptyRecvWaits = true)
    (hnext : (framing .bigEndian).next? k.inbox = none) : k.closed = true := by
  by_contra hopen
  exact hwaits (waits_iff.mpr ⟨Bool.eq_false_iff.mpr hopen, .inl hnext⟩)

/-- What is the same for a changed connection is the same for all. -/
theorem field_update {β : Type*} (f : Connection → β) {conns : Socket → Connection} {c : Socket}
    {k : Connection} (hf : f k = f (conns c)) (d : Socket) :
    f (Function.update conns c k d) = f (conns d) := by
  by_cases hd : d = c
  · rw [hd, Function.update_self, hf]
  · rw [Function.update_of_ne hd]

namespace Server

/-- The server when its thread starts; `early` clients have connected before the server
itself has, and nothing is recognised yet. -/
def init (host : ByteOrder) (early : ℕ) : Server where
  conns c :=
    if c = .aux then ⟨sendScalar host initMagic, sendScalar host initMagic, false, 0, []⟩
    else ⟨[], [], false, 0, []⟩
  clients := early
  backlog := (List.range early).map .client ++ [.aux]
  nextId := 101
  buffer := []
  visited := [⟨100, .acceptPreinit, .listener⟩]
  pending := []
  ready := []
  stopSent := false
  loop := .running

def handlers (s : Server) : List Handler := s.visited ++ s.pending

def onConnection (s : Server) (c : Socket) (f : Connection → Connection) : Server :=
  { s with conns := Function.update s.conns c (f (s.conns c)) }

/-- What `select` looks at. -/
def readable (s : Server) : Socket → Bool
  | .listener => s.backlog ≠ []
  | c => (s.conns c).inbox ≠ [] ∨ (s.conns c).closed

/-- The handler in front of `rest` is kept, and the pass moves on. -/
def proceed (s : Server) (h : Handler) (rest : List Handler) : Server :=
  { s with visited := s.visited ++ [h], pending := rest }

def acceptPreinit (s : Server) (fails : Bool) (h : Handler) (rest : List Handler) :
    Option Server :=
  match s.backlog with
  | [] => none
  | c :: more =>
      if fails then some { s with loop := .raised }
      else
        some (proceed { s with backlog := more, nextId := s.nextId + 1 } h
          (rest ++ [⟨s.nextId, .handlePreinit, c⟩]))

def acceptRegular (code : Surroundings) (s : Server) (fails : Bool) (h : Handler)
    (rest : List Handler) : Option Server :=
  match s.backlog with
  | [] => none
  | c :: more =>
      if fails ∨ code.createRaises c then some { s with loop := .raised }
      else
        let s' := s.onConnection c fun k => { k with created := k.created + 1 }
        some (proceed { s' with backlog := more, nextId := s.nextId + 1 } h
          (rest ++ [⟨s.nextId, .handleSession, c⟩]))

/-- The handlers after the first in the loop of `handle_preinit`, up to where the factory
raises, with the connections that got a session. -/
def assign (code : Surroundings) (self : Handler) :
    List Handler → List Handler × List Socket × Bool
  | [] => ([], [], false)
  | h :: hs =>
      if h.socket = self.socket then
        let done := assign code self hs
        ({ h with handler := .handleAux } :: done.1, done.2)
      else if code.createRaises h.socket then (h :: hs, [], true)
      else
        let done := assign code self hs
        ({ h with handler := .handleSession } :: done.1, h.socket :: done.2.1, done.2.2)

def handlePreinit (host : ByteOrder) (code : Surroundings) (s : Server) (unset : UInt32)
    (h : Handler) (rest : List Handler) : Option Server :=
  let k := s.conns h.socket
  if k.inbox = [] ∧ ¬ k.closed then none
  else
    let magic := recvScalar host .ofList unset k.inbox
    if magic.result = 4 ∧ magic.value = initMagic then
      match s.handlers with
      | [] => none
      | first :: others =>
          let assigned := assign code h others
          let all := { first with handler := .acceptRegular } :: assigned.1
          -- the pass is at `h`; it moves on unless the factory has raised
          let n := if assigned.2.2 then s.visited.length else s.visited.length + 1
          let s' := s.onConnection h.socket fun k => { k with inbox := magic.stream }
          some { s' with
            conns := fun c =>
              if c ∈ assigned.2.1 then
                { s'.conns c with created := (s'.conns c).created + 1 }
              else s'.conns c
            visited := all.take n
            pending := all.drop n
            loop := if assigned.2.2 then .raised else s.loop }
    else some (s.proceed h rest)

/-- What `run` does with the outcome of `handle_session`. The call on the inbound channel is
the last thing to happen, so an exception leaves the rest of the outcome as it is. -/
def served (code : Surroundings) (s : Server) (h : Handler) (rest : List Handler)
    (outcome : Served (List UInt8)) : Server :=
  let log := (s.conns h.socket).log ++ [outcome.call]
  let s' := { s with buffer := outcome.buffer }.onConnection h.socket fun k =>
    { k with inbox := outcome.stream, log := log }
  match outcome.status with
  | .removeThis => { s' with pending := rest }
  | .exit => { s' with loop := .exited }
  | .proceed =>
      if code.messageRaises h.socket log then { s' with loop := .raised } else s'.proceed h rest

def handleSession (host : ByteOrder) (code : Surroundings) (s : Server) (unset : UInt32)
    (h : Handler) (rest : List Handler) : Option Server :=
  let k := s.conns h.socket
  if k.waits code.emptyRecvWaits then none
  else some (s.served code h rest (Sockets.handleSession host .ofList unset s.buffer k.inbox))

/-- The id that `handle_aux` reads from a connection. -/
def receivedId (host : ByteOrder) (s : Server) (unset : UInt32) (h : Handler) :
    RecvScalar (List UInt8) :=
  recvScalar host .ofList unset (s.conns h.socket).inbox

def handleAux (host : ByteOrder) (s : Server) (unset : UInt32) (h : Handler)
    (rest : List Handler) : Option Server :=
  let k := s.conns h.socket
  if k.inbox.length < 4 ∧ ¬ k.closed then none
  else
    let id := s.receivedId host unset h
    let s' := s.onConnection h.socket fun k => { k with inbox := id.stream }
    if 0 < id.result ∧ ∃ h' ∈ s.handlers, h'.id = id.value then
      -- the first handler with this id is erased
      if ∃ h' ∈ s.visited, h'.id = id.value then
        some (proceed { s' with visited := s.visited.eraseP (·.id = id.value) } h rest)
      else if h.id = id.value then some { s' with pending := rest, loop := .undefined }
      else some (s'.proceed h (rest.eraseP (·.id = id.value)))
    else some { s' with loop := .exited }

/-- The call of a handler. -/
def call (host : ByteOrder) (code : Surroundings) (s : Server) (unset : UInt32) (fails : Bool)
    (h : Handler) (rest : List Handler) : Option Server :=
  match h.handler with
  | .acceptPreinit => s.acceptPreinit fails h rest
  | .acceptRegular => acceptRegular code s fails h rest
  | .handlePreinit => handlePreinit host code s unset h rest
  | .handleSession => handleSession host code s unset h rest
  | .handleAux => handleAux host s unset h rest

/-- The turn of the next handler of the pass, when `select` has reported its socket. -/
def serve (host : ByteOrder) (code : Surroundings) (s : Server) (unset : UInt32) (fails : Bool) :
    Option Server :=
  match s.pending with
  | [] => none
  | h :: rest =>
      if h.socket ∈ s.ready then s.call host code unset fails h rest
      else some (s.proceed h rest)

def step (host : ByteOrder) (code : Surroundings) (s : Server) : Event → Option Server
  | .connect =>
      some { s with backlog := s.backlog ++ [.client s.clients], clients := s.clients + 1 }
  | .send n bytes =>
      if n < s.clients ∧ ¬ (s.conns (.client n)).closed then
        some (s.onConnection (.client n) (·.receive bytes))
      else none
  | .close n =>
      if n < s.clients ∧ ¬ (s.conns (.client n)).closed then
        some (s.onConnection (.client n) fun k => { k with closed := true })
      else none
  | .disconnect id =>
      if ∃ h ∈ s.handlers, h.id = id ∧ h.handler = .handleSession then
        some (s.onConnection .aux (·.receive (sendScalar host id)))
      else none
  | .stop =>
      if s.stopSent then none
      else some { s.onConnection .aux (·.receive (sendScalar host 0)) with stopSent := true }
  | .select =>
      let ready := (s.visited.map Handler.socket).filter s.readable
      if s.loop = .running ∧ s.pending = [] ∧ ready ≠ [] then
        some { s with visited := [], pending := s.visited, ready := ready }
      else none
  | .selectFails =>
      if s.loop = .running ∧ s.pending = [] then some { s with loop := .selectFailed } else none
  | .serve unset fails => if s.loop = .running then s.serve host code unset fails else none

/-! ## One turn -/

/-- The pass is at the handler `h`, which has the function `f` and was reported ready. -/
structure Serves (s : Server) (f : HandlerFunction) (h : Handler) : Prop where
  running : s.loop = .running
  next : s.pending.head? = some h
  handler : h.handler = f
  ready : h.socket ∈ s.ready

variable {host : ByteOrder} {code : Surroundings} {s t : Server} {unset : UInt32} {fails : Bool}
  {h : Handler} {rest : List Handler}

@[simp] theorem handlers_proceed (s : Server) (h : Handler) (rest : List Handler) :
    (s.proceed h rest).handlers = s.visited ++ h :: rest := by
  simp [handlers, proceed]

theorem handlers_of_pending (hpending : s.pending = h :: rest) :
    s.handlers = s.visited ++ h :: rest := by
  rw [handlers, hpending]

theorem call_of_serves {f : HandlerFunction} (hh : s.Serves f h)
    (hs : s.step host code (.serve unset fails) = some t) :
    ∃ rest, s.pending = h :: rest ∧ s.call host code unset fails h rest = some t := by
  obtain ⟨rest, hpending⟩ := List.head?_eq_some_iff.mp hh.next
  simp only [step, serve, hh.running, if_true, hpending, if_pos hh.ready] at hs
  exact ⟨rest, hpending, hs⟩

/-- A turn passes over a handler that is not ready or calls one that is. -/
theorem serve_cases (hs : s.step host code (.serve unset fails) = some t) :
    s.loop = .running ∧ ∃ h rest, s.pending = h :: rest ∧
      ((h.socket ∉ s.ready ∧ t = s.proceed h rest) ∨
        (s.Serves h.handler h ∧ s.call host code unset fails h rest = some t)) := by
  simp only [step, Option.ite_none_right_eq_some] at hs
  obtain ⟨hrunning, hs⟩ := hs
  refine ⟨hrunning, ?_⟩
  simp only [serve] at hs
  split at hs
  · cases hs
  · rename_i h rest hpending
    refine ⟨h, rest, hpending, ?_⟩
    split at hs
    · rename_i hready
      exact .inr ⟨⟨hrunning, by rw [hpending]; rfl, rfl, hready⟩, hs⟩
    · rename_i hready
      cases hs
      exact .inl ⟨hready, rfl⟩

/-! ## The turns of the acceptor and of the handler that recognises the server -/

theorem acceptPreinit_cases (hs : s.acceptPreinit fails h rest = some t) :
    t = { s with loop := .raised } ∨ ∃ c more, s.backlog = c :: more ∧
      t = proceed { s with backlog := more, nextId := s.nextId + 1 } h
        (rest ++ [⟨s.nextId, .handlePreinit, c⟩]) := by
  simp only [acceptPreinit] at hs
  split at hs
  · cases hs
  · rename_i c more hbacklog
    split at hs
    · cases hs
      exact .inl rfl
    · cases hs
      exact .inr ⟨c, more, hbacklog, rfl⟩

theorem acceptRegular_cases (hs : s.acceptRegular code fails h rest = some t) :
    t = { s with loop := .raised } ∨ ∃ c more, s.backlog = c :: more ∧
      t = proceed { s.onConnection c fun k => { k with created := k.created + 1 } with
        backlog := more
        nextId := s.nextId + 1 } h (rest ++ [⟨s.nextId, .handleSession, c⟩]) := by
  simp only [acceptRegular] at hs
  split at hs
  · cases hs
  · rename_i c more hbacklog
    split at hs
    · cases hs
      exact .inl rfl
    · cases hs
      exact .inr ⟨c, more, hbacklog, rfl⟩

/-- A connection that has been accepted gets a session and a handler at the end of the list. -/
theorem acceptRegular_spec (hpending : s.pending = h :: rest)
    (hs : s.acceptRegular code fails h rest = some t) :
    t = { s with loop := .raised } ∨ ∃ c more, s.backlog = c :: more ∧
      t.handlers = s.handlers ++ [⟨s.nextId, .handleSession, c⟩] ∧
      t.conns = Function.update s.conns c { s.conns c with created := (s.conns c).created + 1 } ∧
      t.clients = s.clients ∧ t.backlog = more := by
  rcases acceptRegular_cases hs with hraised | ⟨c, more, hbacklog, rfl⟩
  · exact .inl hraised
  · refine .inr ⟨c, more, hbacklog, ?_, rfl, rfl, rfl⟩
    rw [handlers_proceed, handlers_of_pending hpending, List.append_assoc, List.cons_append]
    rfl

/-- The handlers keep their ids and sockets. -/
theorem map_place_assign (code : Surroundings) (self : Handler) (hs : List Handler) :
    (assign code self hs).1.map (fun h => (h.id, h.socket)) = hs.map fun h => (h.id, h.socket) := by
  induction hs with
  | nil => rfl
  | cons h hs ih =>
      rw [assign]
      split
      · simp [ih]
      · split
        · rfl
        · simp [ih]

theorem map_socket_assign (code : Surroundings) (self : Handler) (hs : List Handler) :
    (assign code self hs).1.map Handler.socket = hs.map Handler.socket := by
  simpa [List.map_map, Function.comp_def] using
    congrArg (List.map Prod.snd) (map_place_assign code self hs)

theorem mem_sessions_assign {self : Handler} {hs : List Handler} {c : Socket}
    (hc : c ∈ (assign code self hs).2.1) : c ∈ hs.map Handler.socket ∧ c ≠ self.socket := by
  induction hs with
  | nil => exact absurd hc List.not_mem_nil
  | cons h hs ih =>
      rw [assign] at hc
      split at hc
      · exact ⟨List.mem_cons_of_mem _ (ih hc).1, (ih hc).2⟩
      · rename_i hself
        split at hc
        · exact absurd hc List.not_mem_nil
        · rcases List.mem_cons.mp hc with rfl | hc
          · exact ⟨List.mem_cons_self, hself⟩
          · exact ⟨List.mem_cons_of_mem _ (ih hc).1, (ih hc).2⟩

/-- The connections when the handlers have been switched: one has lost the magic, and some
of the others have got a session. -/
def switchedConns (code : Surroundings) (conns : Socket → Connection) (self : Handler)
    (others : List Handler) (inbox : List UInt8) (c : Socket) : Connection :=
  if c = self.socket then { conns c with inbox := inbox }
  else if c ∈ (assign code self others).2.1 then
    { conns c with created := (conns c).created + 1 }
  else conns c

/-- What `handle_preinit` looks for at the front of the connection of a handler. -/
def FindsMagic (host : ByteOrder) (s : Server) (unset : UInt32) (h : Handler) : Prop :=
  let magic := recvScalar host .ofList unset (s.conns h.socket).inbox
  magic.result = 4 ∧ magic.value = initMagic

instance (host : ByteOrder) (s : Server) (unset : UInt32) (h : Handler) :
    Decidable (s.FindsMagic host unset h) :=
  inferInstanceAs (Decidable (_ ∧ _))

/-- `handle_preinit` does nothing, or it has found the magic and switches the handlers. -/
theorem handlePreinit_cases (hs : s.handlePreinit host code unset h rest = some t) :
    (t = s.proceed h rest ∧ ¬ s.FindsMagic host unset h) ∨
    ∃ first others inbox, s.FindsMagic host unset h ∧ inbox = (s.conns h.socket).inbox.drop 4 ∧
      s.handlers = first :: others ∧
      t.handlers = { first with handler := .acceptRegular } :: (assign code h others).1 ∧
      t.conns = switchedConns code s.conns h others inbox ∧ t.clients = s.clients ∧
      t.backlog = s.backlog ∧ t.loop = if (assign code h others).2.2 then .raised else s.loop := by
  simp only [handlePreinit, Option.ite_none_left_eq_some] at hs
  rcases hs with ⟨-, hs⟩
  split at hs
  · rename_i hmagic
    right
    split at hs
    · cases hs
    · rename_i first others hlist
      cases hs
      refine ⟨first, others, (recvScalar host .ofList unset (s.conns h.socket).inbox).stream,
        hmagic, rfl, hlist, ?_, ?_, rfl, rfl, rfl⟩
      · rw [handlers, List.take_append_drop]
      · funext c
        simp only [switchedConns, onConnection]
        by_cases hself : c = h.socket
        · have hnot : c ∉ (assign code h others).2.1 :=
            fun hc => (mem_sessions_assign hc).2 hself
          rw [if_neg hnot, if_pos hself, hself, Function.update_self]
        · rw [if_neg hself, Function.update_of_ne hself]
  · rename_i hmagic
    cases hs
    exact .inl ⟨rfl, hmagic⟩

/-! ## The turn of a session -/

/-- Apart from the buffer and the connection, only the place in the list and the loop change. -/
theorem served_eq (code : Surroundings) (s : Server) (h : Handler) (rest : List Handler)
    (outcome : Served (List UInt8)) : ∃ visited pending loop, s.served code h rest outcome =
      { s with
        conns := Function.update s.conns h.socket
          { s.conns h.socket with
            inbox := outcome.stream
            log := (s.conns h.socket).log ++ [outcome.call] }
        buffer := outcome.buffer
        visited := visited
        pending := pending
        loop := loop } := by
  simp only [served]
  split
  · exact ⟨_, _, _, rfl⟩
  · exact ⟨_, _, _, rfl⟩
  · split <;> exact ⟨_, _, _, rfl⟩

@[simp] theorem served_conns (code : Surroundings) (s : Server) (h : Handler) (rest : List Handler)
    (outcome : Served (List UInt8)) :
    (s.served code h rest outcome).conns = Function.update s.conns h.socket
      { s.conns h.socket with
        inbox := outcome.stream
        log := (s.conns h.socket).log ++ [outcome.call] } := by
  obtain ⟨visited, pending, loop, heq⟩ := served_eq code s h rest outcome
  rw [heq]

@[simp] theorem served_clients (code : Surroundings) (s : Server) (h : Handler)
    (rest : List Handler) (outcome : Served (List UInt8)) :
    (s.served code h rest outcome).clients = s.clients := by
  obtain ⟨visited, pending, loop, heq⟩ := served_eq code s h rest outcome
  rw [heq]

@[simp] theorem served_backlog (code : Surroundings) (s : Server) (h : Handler)
    (rest : List Handler) (outcome : Served (List UInt8)) :
    (s.served code h rest outcome).backlog = s.backlog := by
  obtain ⟨visited, pending, loop, heq⟩ := served_eq code s h rest outcome
  rw [heq]

theorem served_proceed {outcome : Served (List UInt8)} (hpending : s.pending = h :: rest)
    (hstatus : outcome.status = .proceed) :
    (s.served code h rest outcome).handlers = s.handlers := by
  simp only [served, hstatus]
  split
  · rfl
  · simp [onConnection, handlers_of_pending hpending]

theorem served_removeThis {outcome : Served (List UInt8)} (hstatus : outcome.status = .removeThis) :
    (s.served code h rest outcome).handlers = s.visited ++ rest ∧
      (s.served code h rest outcome).loop = s.loop := by
  simp only [served, hstatus]
  exact ⟨rfl, rfl⟩

/-- What `handle_session` does: it delivers the frame in front, disconnects at the end of
the stream, or delivers what there is of a frame that will not be completed. -/
theorem handleSession_cases (hs : s.handleSession host code unset h rest = some t) :
    ∃ outcome, t = s.served code h rest outcome ∧
      ((∃ p, (framing .bigEndian).next? (s.conns h.socket).inbox = some (p, outcome.stream) ∧
          outcome.call = .message p ∧ outcome.status = .proceed) ∨
        ((framing .bigEndian).next? (s.conns h.socket).inbox = none ∧
          (s.conns h.socket).closed ∧
            (((s.conns h.socket).inbox = [] ∧ outcome.call = .disconnect ∧ outcome.stream = [] ∧
                outcome.status = .removeThis) ∨
              ((s.conns h.socket).inbox ≠ [] ∧ (∃ p, outcome.call = .message p) ∧
                outcome.status = .proceed)))) := by
  simp only [handleSession, Option.ite_none_left_eq_some, Option.some.injEq] at hs
  obtain ⟨hready, rfl⟩ := hs
  refine ⟨_, rfl, ?_⟩
  cases hnext : (framing .bigEndian).next? (s.conns h.socket).inbox with
  | some pair =>
      obtain ⟨p, stream⟩ := pair
      obtain ⟨hcall, -, hstream, hstatus⟩ :=
        handleSession_of_frame host .ofList unset s.buffer hnext
      exact .inl ⟨p, by rw [← hstream]; rfl, hcall, hstatus⟩
  | none =>
      have hclosed := Connection.closed_of_none hready hnext
      refine .inr ⟨rfl, hclosed, ?_⟩
      by_cases hinbox : (s.conns h.socket).inbox = []
      · obtain ⟨hcall, -, hstream, hstatus⟩ :=
          handleSession_of_end host .ofList unset s.buffer hinbox
        exact .inl ⟨hinbox, hcall, hstream, hstatus⟩
      · obtain ⟨hcall, -, hstatus⟩ :=
          handleSession_of_cut host .ofList unset s.buffer hinbox hnext
        exact .inr ⟨hinbox, ⟨_, hcall⟩, hstatus⟩

/-! ## The turn of `handle_aux` -/

/-- `handle_aux` takes bytes from its connection, and at most one handler leaves the list. -/
theorem handleAux_cases (hpending : s.pending = h :: rest)
    (hs : s.handleAux host unset h rest = some t) :
    t.conns = Function.update s.conns h.socket
        { s.conns h.socket with inbox := (s.conns h.socket).inbox.drop 4 } ∧
      t.clients = s.clients ∧ t.backlog = s.backlog ∧ t.handlers.Sublist s.handlers ∧
      (t.loop = s.loop ∨ t.loop = .undefined ∨ t.loop = .exited) := by
  rw [handlers_of_pending hpending]
  simp only [handleAux, Option.ite_none_left_eq_some] at hs
  rcases hs with ⟨-, hs⟩
  split at hs
  · split at hs
    · cases hs
      refine ⟨rfl, rfl, rfl, ?_, .inl rfl⟩
      rw [handlers_proceed]
      exact List.Sublist.append_right (List.eraseP_sublist) _
    · split at hs
      · cases hs
        refine ⟨rfl, rfl, rfl, ?_, .inr (.inl rfl)⟩
        exact List.Sublist.append_left (List.sublist_cons_self _ _) _
      · cases hs
        refine ⟨rfl, rfl, rfl, ?_, .inl rfl⟩
        rw [handlers_proceed]
        exact List.Sublist.append_left (List.Sublist.cons_cons _ List.eraseP_sublist) _
  · cases hs
    refine ⟨rfl, rfl, rfl, ?_, .inr (.inr rfl)⟩
    rw [← handlers_of_pending hpending]
    exact List.Sublist.refl _

/-- The handler that leaves the list is the first with the id received. -/
theorem handleAux_eraseP (hpending : s.pending = h :: rest)
    (hresult : 0 < (s.receivedId host unset h).result)
    (hs : s.handleAux host unset h rest = some t) :
    t.handlers = s.handlers.eraseP (·.id = (s.receivedId host unset h).value) := by
  rw [handlers_of_pending hpending]
  simp only [handleAux, hresult, true_and, Option.ite_none_left_eq_some] at hs
  rcases hs with ⟨-, hs⟩
  split at hs
  · split at hs
    · rename_i hvisited
      cases hs
      rcases hvisited with ⟨h₀, hh₀, hid₀⟩
      rw [handlers_proceed, List.eraseP_append_left (by simpa using hid₀) _ hh₀]
    · rename_i hvisited
      have hnot : ∀ h₀ ∈ s.visited, ¬ decide (h₀.id = (s.receivedId host unset h).value) := by
        intro h₀ hh₀ hid₀
        exact hvisited ⟨h₀, hh₀, by simpa using hid₀⟩
      rw [List.eraseP_append_right _ hnot]
      split at hs
      · rename_i hself
        cases hs
        rw [List.eraseP_cons_of_pos (by simpa using hself)]
        rfl
      · rename_i hself
        cases hs
        rw [handlers_proceed, List.eraseP_cons_of_neg (by simpa using hself)]
        rfl
  · rename_i hfound
    cases hs
    rw [← handlers_of_pending hpending, List.eraseP_of_forall_not]
    · rfl
    · intro h₀ hh₀ hid₀
      exact hfound ⟨h₀, hh₀, by simpa using hid₀⟩

/-! ## Outside the loop -/

/-- Clients and sessions have done something; no handler has been called. -/
structure Outside (s t : Server) : Prop where
  loop : t.loop = s.loop
  handlers : t.handlers = s.handlers
  log : ∀ c, (t.conns c).log = (s.conns c).log
  closed : ∀ n, (s.conns (.client n)).closed → (t.conns (.client n)).closed
  sent : ∀ n, (s.conns (.client n)).closed →
    (t.conns (.client n)).sent = (s.conns (.client n)).sent

theorem Outside.refl (s : Server) : s.Outside s :=
  ⟨rfl, rfl, fun _ => rfl, fun _ h => h, fun _ _ => rfl⟩

theorem Outside.trans {u : Server} (hst : s.Outside t) (htu : t.Outside u) : s.Outside u := by
  refine ⟨htu.loop.trans hst.loop, htu.handlers.trans hst.handlers, ?_, ?_, ?_⟩
  · exact fun c => (htu.log c).trans (hst.log c)
  · exact fun n h => htu.closed n (hst.closed n h)
  · exact fun n h => (htu.sent n (hst.closed n h)).trans (hst.sent n h)

theorem outside_onConnection {c : Socket} {f : Connection → Connection}
    (hlog : (f (s.conns c)).log = (s.conns c).log)
    (hopen : ∀ n, c = .client n → ¬ (s.conns c).closed) : s.Outside (s.onConnection c f) := by
  refine ⟨rfl, rfl, field_update Connection.log hlog, ?_, ?_⟩
  · intro n hclosed
    have hn : Socket.client n ≠ c := fun hn => hopen n hn.symm (hn ▸ hclosed)
    simp only [onConnection, Function.update_of_ne hn]
    exact hclosed
  · intro n hclosed
    have hn : Socket.client n ≠ c := fun hn => hopen n hn.symm (hn ▸ hclosed)
    simp only [onConnection, Function.update_of_ne hn]

/-- A step is a turn of a handler, or the loop goes from one pass to the next or ends with
`select`, or it is none of the loop's. -/
theorem step_cases {e : Event} (hs : s.step host code e = some t) :
    (∃ unset fails, e = .serve unset fails) ∨
      (s.loop = .running ∧ (t.loop = .running ∨ t.loop = .selectFailed) ∧
        t.handlers = s.handlers ∧ t.conns = s.conns) ∨
      s.Outside t := by
  cases e with
  | serve unset fails => exact .inl ⟨unset, fails, rfl⟩
  | connect =>
      cases hs
      exact .inr (.inr ⟨rfl, rfl, fun _ => rfl, fun _ h => h, fun _ _ => rfl⟩)
  | send n bytes =>
      simp only [step, Option.ite_none_right_eq_some, Option.some.injEq] at hs
      rcases hs with ⟨⟨-, hopen⟩, rfl⟩
      exact .inr (.inr (outside_onConnection rfl fun _ _ => hopen))
  | close n =>
      simp only [step, Option.ite_none_right_eq_some, Option.some.injEq] at hs
      rcases hs with ⟨⟨-, hopen⟩, rfl⟩
      exact .inr (.inr (outside_onConnection rfl fun _ _ => hopen))
  | disconnect id =>
      simp only [step, Option.ite_none_right_eq_some, Option.some.injEq] at hs
      rcases hs with ⟨-, rfl⟩
      exact .inr (.inr (outside_onConnection rfl fun _ h => by cases h))
  | stop =>
      simp only [step, Option.ite_none_left_eq_some, Option.some.injEq] at hs
      rcases hs with ⟨-, rfl⟩
      have hsend : s.Outside (s.onConnection .aux (·.receive (sendScalar host 0))) :=
        outside_onConnection rfl fun _ h => by cases h
      exact .inr (.inr ⟨hsend.loop, hsend.handlers, hsend.log, hsend.closed, hsend.sent⟩)
  | select =>
      simp only [step, Option.ite_none_right_eq_some, Option.some.injEq] at hs
      rcases hs with ⟨⟨hrunning, hpending, -⟩, rfl⟩
      exact .inr (.inl ⟨hrunning, .inl hrunning, by simp [handlers, hpending], rfl⟩)
  | selectFails =>
      simp only [step, Option.ite_none_right_eq_some, Option.some.injEq] at hs
      rcases hs with ⟨⟨hrunning, -⟩, rfl⟩
      exact .inr (.inl ⟨hrunning, .inr rfl, rfl, rfl⟩)

end Server

end CohesionIpc.Sockets
