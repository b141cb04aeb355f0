import CohesionIpc.Foundation.LinkedList
import CohesionIpc.Model.Sockets.Server

/-! One pass of `socket_handler::run`: the loop over the handlers after `select`, with the
iterator into a list that the called handlers change. -/

namespace CohesionIpc.Sockets

/-- `socket_handler`, over descriptors of any kind. -/
structure SocketHandler (δ : Type*) where
  id : UInt32
  handler : HandlerFunction
  socket : δ
deriving DecidableEq, Repr

/-- What a called handler does. `accept` is the end of `accept_preinit` or `accept_regular`,
which append a handler with the function they bind; `switch` is `handle_preinit` when it has
found the magic, and `erase` is `handle_aux` with the id it has received. -/
inductive Effect (δ : Type*)
  | proceed
  | removeThis
  | exit
  | accept (handler : HandlerFunction) (socket : δ)
  | switch
  | erase (id : UInt32)
deriving DecidableEq, Repr

/-- What the pass has done, in order. -/
inductive Entry (δ : Type*)
  | called (address : ℕ) (handler : HandlerFunction)
  | erased (address : ℕ)
  | appended (address : ℕ) (id : UInt32) (socket : δ)
deriving DecidableEq, Repr

namespace Entry

variable {δ : Type*}

def call? : Entry δ → Option (ℕ × HandlerFunction)
  | .called a f => some (a, f)
  | .erased _ | .appended _ _ _ => none

def erasure? : Entry δ → Option ℕ
  | .erased a => some a
  | .called _ _ | .appended _ _ _ => none

def addition? : Entry δ → Option (ℕ × UInt32 × δ)
  | .appended a id socket => some (a, id, socket)
  | .called _ _ | .erased _ => none

end Entry

/-- The turn of the next handler: it is not ready, or it is called and returns or throws. -/
inductive Turn (δ : Type*)
  | skip
  | call (effect : Effect δ)
  | throws
deriving DecidableEq, Repr

/-- `handlers`, `fds` and `i` are the variables of `run`; `log` is an observation. -/
structure Pass (δ : Type*) where
  handlers : LinkedList (SocketHandler δ)
  nextId : UInt32
  fds : δ → Bool
  i : Iterator
  loop : Loop
  log : List (Entry δ)

/-- What the loop of `handle_preinit` makes of a handler, when it is called for the one at
`self` and the list begins at `first`. -/
def switched {δ : Type*} (first : Iterator) (self : ℕ) (h : Cell (SocketHandler δ)) :
    SocketHandler δ :=
  if .cell h.address = first then { h.value with handler := .acceptRegular }
  else if h.address = self then { h.value with handler := .handleAux }
  else { h.value with handler := .handleSession }

namespace Pass

variable {δ : Type*}

/-- The pass begins: `select` leaves in `fds` those of the descriptors in it that are ready. -/
def select [DecidableEq δ] (handlers : LinkedList (SocketHandler δ)) (nextId : UInt32)
    (reported : δ → Bool) : Pass δ where
  handlers := handlers
  nextId := nextId
  fds d := handlers.cells.any (·.value.socket = d) && reported d
  i := LinkedList.front handlers.cells
  loop := .running
  log := []

def record (p : Pass δ) (entry : Entry δ) : Pass δ := { p with log := p.log ++ [entry] }

/-- A handler, the one at `self`, is executed. -/
def perform (p : Pass δ) (self : ℕ) : Effect δ → Pass δ × Status
  | .proceed => (p, .proceed)
  | .removeThis => (p, .removeThis)
  | .exit => (p, .exit)
  | .accept handler socket =>
      ({ p with
        handlers := p.handlers.pushBack ⟨p.nextId, handler, socket⟩
        nextId := p.nextId + 1
        log := p.log ++ [.appended p.handlers.fresh p.nextId socket] }, .proceed)
  | .switch =>
      ({ p with
        handlers := p.handlers.assign (switched (LinkedList.front p.handlers.cells) self) },
        .proceed)
  | .erase id =>
      match p.handlers.cells.find? (·.value.id = id) with
      | some h =>
          ({ p with
            handlers := p.handlers.erase h.address
            log := p.log ++ [.erased h.address] }, .proceed)
      | none => (p, .exit)

/-- The `switch` over the status of the handler at `self`. -/
def settle (p : Pass δ) (self : ℕ) : Status → Pass δ
  | .proceed =>
      match p.handlers.next p.i with
      | some i => { p with i := i }
      | none => { p with loop := .undefined }
  | .removeThis =>
      match p.handlers.next p.i with
      | some i => { p with
          handlers := p.handlers.erase self
          i := i
          log := p.log ++ [.erased self] }
      | none => { p with loop := .undefined }
  | .exit => { p with loop := .exited }

/-- One iteration of the loop over the handlers. -/
def turn (p : Pass δ) (self : Cell (SocketHandler δ)) (e : Turn δ) : Option (Pass δ) :=
  match e, p.fds self.value.socket with
  | .skip, false => some (p.settle self.address .proceed)
  | .call effect, true =>
      let done := (p.record (.called self.address self.value.handler)).perform self.address effect
      some (done.1.settle self.address done.2)
  | .throws, true =>
      some { p.record (.called self.address self.value.handler) with loop := .raised }
  | .skip, true | .call _, false | .throws, false => none

def step (p : Pass δ) (e : Turn δ) : Option (Pass δ) :=
  if p.loop ≠ .running ∨ p.i = .past then none
  else
    match p.handlers.deref p.i with
    | some self => p.turn self e
    | none => some { p with loop := .undefined }

/-- The handlers that have been called, with the functions they held. -/
def called (p : Pass δ) : List (ℕ × HandlerFunction) := p.log.filterMap Entry.call?

def erased (p : Pass δ) : List ℕ := p.log.filterMap Entry.erasure?

def appended (p : Pass δ) : List (ℕ × UInt32 × δ) := p.log.filterMap Entry.addition?

/-- What a handler keeps as long as it is there. -/
def place (c : Cell (SocketHandler δ)) : ℕ × UInt32 × δ := (c.address, c.value.id, c.value.socket)

/-- The handlers that the pass has still to look at. -/
def pending (p : Pass δ) : List (Cell (SocketHandler δ)) := p.handlers.suffix p.i

end Pass

end CohesionIpc.Sockets
