import CohesionIpc.Foundation.SharedBuffer
import CohesionIpc.Foundation.Transition
import CohesionIpc.Model.Strmd.ServerSession
import Mathlib.Logic.Function.Basic

/-! `server_session` while calls are nested in each other: a handler runs in its place in the
table, on an argument that is stored there, and the outbound channel reads a message in its
place in the buffer, whatever is called in between. -/

namespace CohesionIpc.Strmd

/-- The parameter of a handler: whether it is a reference, and how the deserializer stores a value
into an object of its type: the object afterwards, and whether it has succeeded. Then nothing of
the old value is left. -/
structure Parameter (α : Type*) where
  reference : Bool
  read : List UInt8 → α → α × Bool
  complete : ∀ bytes a b, (read bytes a).2 = true → read bytes b = read bytes a

/-- What a handler has been called with: the value decoded for this call, and the copy of it that
a parameter by value is. -/
structure Argument (α : Type*) where
  decoded : α
  copy : Option α

/-- `underlying(response_, arg1)`, with the object at `arg1` as the deserializer has left it. -/
def Parameter.pass {α : Type*} (x : Parameter α) (arg1 : α) : Argument α :=
  ⟨arg1, if x.reference then none else some arg1⟩

/-- `handler_thunk` in the table. `registration` counts the `add_handler` calls; a handler
without an argument has no parameter. -/
structure Thunk (κ α : Type*) where
  registration : ℕ
  underlying : κ
  parameter : Option (Parameter α)
  arg1 : α

/-- What is executed: a handler in its place in the table, with its argument, or a
continuation. -/
inductive Body (κ γ α : Type*)
  | handler (requestId : Int32) (registration : ℕ) (underlying : κ)
      (argument : Option (Argument α))
  | continuation (k : γ)

/-- A call that has not returned: a handler or a continuation with its `response`, on behalf
of a request, or `message` of the outbound channel. -/
inductive ServerFrame (κ γ α : Type*)
  | invocation (request : ℕ) (body : Body κ γ α) (response : Response γ)
  | sending (view : View) (message : List UInt8)

/-- A server session: `_outbound_buffer` as storage, the handlers, the apartment queue, the
calls that have not returned, the innermost one first, and whether the last step ended in an
exception. `requests` counts those that a handler was called for. -/
structure ServerCalls (κ γ α : Type*) where
  buffer : SharedBuffer UInt8
  handlers : Int32 → Option (Thunk κ α)
  registrations : ℕ
  apartment : Bool
  queue : List (Queued γ)
  stack : List (ServerFrame κ γ α)
  requests : ℕ
  thrown : Bool

/-- What the code of the innermost call does, or something outside all of them. `spare` is
the room that the buffer gets behind a message that did not fit. -/
inductive ServerCall (κ γ α : Type*)
  | message (payload : List UInt8)
  | runTask (i : ℕ)
  | respond (responseId : Int32) (value spare : List UInt8)
  | send (messageId : Int32) (formatted spare : List UInt8)
  | defer (continuation : Option γ)
  | addHandler (requestId : Int32) (handler : κ) (parameter : Option (Parameter α))
  | finish
  | throw

variable {κ γ α : Type*}

namespace ServerCalls

def init (apartment : Bool) : ServerCalls κ γ α :=
  ⟨.empty, fun _ => none, 0, apartment, [], [], 0, false⟩

/-- The messages being read, with what they were. -/
def lent (s : ServerCalls κ γ α) : List (View × List UInt8) :=
  s.stack.filterMap fun
    | .sending view message => some (view, message)
    | .invocation .. => none

/-- A handler or a continuation is called with a new `response`. -/
def invoke (s : ServerCalls κ γ α) (request : ℕ) (body : Body κ γ α) (token : UInt64)
    (deferralEnabled : Bool) : ServerCalls κ γ α :=
  { s with
    stack := .invocation request body ⟨token, deferralEnabled, none⟩ :: s.stack
    thrown := false }

/-- `server_session::message` with a formatter. -/
def messageWith (packer : Packer) (s : ServerCalls κ γ α) (messageId : Int32)
    (formatted spare : List UInt8) : ServerCalls κ γ α :=
  let bytes := packer.id.encode messageId ++ formatted
  let buffer := s.buffer.rewrite spare bytes
  { s with
    buffer := buffer
    stack := .sending (buffer.view bytes.length) bytes :: s.stack
    thrown := false }

/-- The call of a handler, with its argument decoded into the object in its thunk. -/
def callHandler (s : ServerCalls κ γ α) (requestId : Int32) (h : Thunk κ α) (token : UInt64)
    (d : List UInt8) : ServerCalls κ γ α :=
  match h.parameter with
  | none =>
      { s with requests := s.requests + 1 }.invoke s.requests
        (.handler requestId h.registration h.underlying none) token s.apartment
  | some x =>
      let got := x.read d h.arg1
      let s' := { s with
        handlers := Function.update s.handlers requestId (some { h with arg1 := got.1 }) }
      if got.2 then
        { s' with requests := s.requests + 1 }.invoke s.requests
          (.handler requestId h.registration h.underlying (some (x.pass got.1))) token s.apartment
      else { s' with thrown := true }

/-- `server_session::message`, inbound. -/
def message (packer : Packer) (s : ServerCalls κ γ α) (payload : List UInt8) :
    ServerCalls κ γ α :=
  match packer.id.decode payload with
  | none => { s with thrown := true }
  | some (requestId, d) =>
      match packer.token.decode d with
      | none => { s with thrown := true }
      | some (token, d) =>
          match s.handlers requestId with
          | none => { s with thrown := false }
          | some h => s.callHandler requestId h token d

/-- `server_session::add_handler`: the thunk is assigned to whatever is in the table. -/
def addHandler [Inhabited α] (s : ServerCalls κ γ α) (requestId : Int32) (handler : κ)
    (parameter : Option (Parameter α)) : ServerCalls κ γ α :=
  { s with
    handlers := Function.update s.handlers requestId
      (some ⟨s.registrations, handler, parameter, default⟩)
    registrations := s.registrations + 1
    thrown := false }

def step [Inhabited α] (packer : Packer) (s : ServerCalls κ γ α) :
    ServerCall κ γ α → Option (ServerCalls κ γ α)
  | .message payload => some (s.message packer payload)
  | .runTask i =>
      -- the lambda of `schedule_continuation`
      s.queue[i]?.map fun q =>
        { s with queue := s.queue.eraseIdx i }.invoke q.request (.continuation q.task.continuation)
          q.task.token true
  | .respond responseId value spare =>
      match s.stack with
      | .invocation _ _ r :: _ =>
          some (s.messageWith packer responseId (packer.token.encode r.token ++ value) spare)
      | _ => none
  | .send messageId formatted spare => some (s.messageWith packer messageId formatted spare)
  | .defer continuation =>
      match s.stack with
      | .invocation request body r :: rest =>
          if r.deferralEnabled then
            some { s with
              stack := .invocation request body { r with continuation := continuation } :: rest
              thrown := false }
          else some { s with thrown := true }
      | _ => none
  | .addHandler requestId handler parameter => some (s.addHandler requestId handler parameter)
  | .finish =>
      match s.stack with
      | [] => none
      | .invocation request _ r :: rest =>
          -- `schedule_continuation` is reached with a continuation only
          let scheduled := r.continuation.map fun k => ⟨⟨r.token, k⟩, request⟩
          some { s with stack := rest, queue := s.queue ++ scheduled.toList, thrown := false }
      | .sending .. :: rest => some { s with stack := rest, thrown := false }
  | .throw =>
      match s.stack with
      | [] => none
      | _ :: rest => some { s with stack := rest, thrown := true }

/-! ## What a step can do -/

/-- The steps from `s`, each with what it takes. -/
inductive Steps [Inhabited α] (packer : Packer) (s : ServerCalls κ γ α) :
    ServerCall κ γ α → ServerCalls κ γ α → Prop
  | message (payload : List UInt8) : Steps packer s (.message payload) (s.message packer payload)
  | runTask {i : ℕ} {q : Queued γ} (hq : s.queue[i]? = some q) :
      Steps packer s (.runTask i) ({ s with queue := s.queue.eraseIdx i }.invoke q.request
        (.continuation q.task.continuation) q.task.token true)
  | respond {request : ℕ} {body : Body κ γ α} {r : Response γ} {rest : List (ServerFrame κ γ α)}
      (hstack : s.stack = .invocation request body r :: rest) (responseId : Int32)
      (value spare : List UInt8) :
      Steps packer s (.respond responseId value spare)
        (s.messageWith packer responseId (packer.token.encode r.token ++ value) spare)
  | send (messageId : Int32) (formatted spare : List UInt8) :
      Steps packer s (.send messageId formatted spare)
        (s.messageWith packer messageId formatted spare)
  | defer {request : ℕ} {body : Body κ γ α} {r : Response γ} {rest : List (ServerFrame κ γ α)}
      (hstack : s.stack = .invocation request body r :: rest) (henabled : r.deferralEnabled = true)
      (continuation : Option γ) :
      Steps packer s (.defer continuation) { s with
        stack := .invocation request body { r with continuation := continuation } :: rest
        thrown := false }
  | deferFails {request : ℕ} {body : Body κ γ α} {r : Response γ}
      {rest : List (ServerFrame κ γ α)} (hstack : s.stack = .invocation request body r :: rest)
      (hdisabled : r.deferralEnabled = false) (continuation : Option γ) :
      Steps packer s (.defer continuation) { s with thrown := true }
  | addHandler (requestId : Int32) (handler : κ) (parameter : Option (Parameter α)) :
      Steps packer s (.addHandler requestId handler parameter)
        (s.addHandler requestId handler parameter)
  | returns {request : ℕ} {body : Body κ γ α} {r : Response γ} {rest : List (ServerFrame κ γ α)}
      (hstack : s.stack = .invocation request body r :: rest) :
      Steps packer s .finish { s with
        stack := rest
        queue := s.queue ++ (r.continuation.map fun k => ⟨⟨r.token, k⟩, request⟩).toList
        thrown := false }
  | sent {view : View} {message : List UInt8} {rest : List (ServerFrame κ γ α)}
      (hstack : s.stack = .sending view message :: rest) :
      Steps packer s .finish { s with stack := rest, thrown := false }
  | throw {frame : ServerFrame κ γ α} {rest : List (ServerFrame κ γ α)}
      (hstack : s.stack = frame :: rest) :
      Steps packer s .throw { s with stack := rest, thrown := true }

variable {packer : Packer} {s t : ServerCalls κ γ α} {e : ServerCall κ γ α}

theorem steps_of_step [Inhabited α] (hs : s.step packer e = some t) : Steps packer s e t := by
  cases e with
  | message payload =>
      cases hs
      exact .message payload
  | runTask i =>
      rcases Option.map_eq_some_iff.mp hs with ⟨q, hq, rfl⟩
      exact .runTask hq
  | respond responseId value spare =>
      simp only [step] at hs
      split at hs
      · rename_i hstack
        cases hs
        exact .respond hstack responseId value spare
      · cases hs
  | send messageId formatted spare =>
      cases hs
      exact .send messageId formatted spare
  | defer continuation =>
      simp only [step] at hs
      split at hs
      · rename_i r _ hstack
        split at hs
        · rename_i henabled
          cases hs
          exact .defer hstack henabled continuation
        · rename_i hdisabled
          cases hs
          exact .deferFails hstack (Bool.eq_false_iff.mpr hdisabled) continuation
      · cases hs
  | addHandler requestId handler parameter =>
      cases hs
      exact .addHandler requestId handler parameter
  | finish =>
      simp only [step] at hs
      split at hs
      · cases hs
      · rename_i hstack
        cases hs
        exact .returns hstack
      · rename_i hstack
        cases hs
        exact .sent hstack
  | throw =>
      simp only [step] at hs
      split at hs
      · cases hs
      · rename_i hstack
        cases hs
        exact .throw hstack

/-! ## What runs -/

/-- The handlers and continuations that have not returned. -/
def bodies (s : ServerCalls κ γ α) : List (Body κ γ α) :=
  s.stack.filterMap fun
    | .invocation _ body _ => some body
    | .sending .. => none

/-- An inbound message gets to a handler, or nothing runs because of it. -/
theorem message_cases (packer : Packer) (s : ServerCalls κ γ α) (payload : List UInt8) :
    (∃ thrown, s.message packer payload = { s with thrown := thrown }) ∨
      ∃ requestId token d d' h, packer.id.decode payload = some (requestId, d') ∧
        packer.token.decode d' = some (token, d) ∧ s.handlers requestId = some h ∧
        s.message packer payload = s.callHandler requestId h token d := by
  simp only [message]
  cases hid : packer.id.decode payload with
  | none => exact .inl ⟨true, rfl⟩
  | some pair =>
      rcases pair with ⟨requestId, d'⟩
      cases htoken : packer.token.decode d' with
      | none => exact .inl ⟨true, by simp only [htoken]⟩
      | some pair =>
          rcases pair with ⟨token, d⟩
          cases hh : s.handlers requestId with
          | none => exact .inl ⟨false, by simp only [htoken, hh]⟩
          | some h =>
              exact .inr ⟨requestId, token, d, d', h, rfl, htoken, hh, by simp only [htoken, hh]⟩

/-- The table after a handler has been found: the object of its argument may have changed. -/
theorem handlers_callHandler (s : ServerCalls κ γ α) (requestId : Int32) (h : Thunk κ α)
    (token : UInt64) (d : List UInt8) :
    (h.parameter = none ∧ (s.callHandler requestId h token d).handlers = s.handlers) ∨
      ∃ x, h.parameter = some x ∧ (s.callHandler requestId h token d).handlers =
        Function.update s.handlers requestId (some { h with arg1 := (x.read d h.arg1).1 }) := by
  simp only [callHandler]
  cases h.parameter with
  | none => exact .inl ⟨rfl, rfl⟩
  | some x =>
      refine .inr ⟨x, rfl, ?_⟩
      simp only
      split <;> rfl

/-- What runs after a handler has been found: it, unless its argument could not be decoded. -/
theorem bodies_callHandler (s : ServerCalls κ γ α) (requestId : Int32) (h : Thunk κ α)
    (token : UInt64) (d : List UInt8) :
    (s.callHandler requestId h token d).bodies = s.bodies ∨
      (s.callHandler requestId h token d).bodies =
        .handler requestId h.registration h.underlying
          (h.parameter.map fun x => x.pass (x.read d h.arg1).1) :: s.bodies := by
  simp only [callHandler]
  cases h.parameter with
  | none => exact .inr rfl
  | some x =>
      simp only
      split
      · exact .inr rfl
      · exact .inl rfl

theorem registrations_callHandler (s : ServerCalls κ γ α) (requestId : Int32) (h : Thunk κ α)
    (token : UInt64) (d : List UInt8) :
    (s.callHandler requestId h token d).registrations = s.registrations := by
  simp only [callHandler]
  split
  · rfl
  · split <;> rfl

/-- Only inbound messages and registrations touch the table or let a handler run. -/
theorem step_cases [Inhabited α] (hs : s.step packer e = some t) :
    (t.handlers = s.handlers ∧ t.registrations = s.registrations ∧
        ∀ body ∈ t.bodies, body ∈ s.bodies ∨ ∃ k, body = .continuation k) ∨
      (∃ requestId handler parameter, e = .addHandler requestId handler parameter ∧
        t = s.addHandler requestId handler parameter) ∨
      ∃ payload requestId token d d' h, e = .message payload ∧
        packer.id.decode payload = some (requestId, d') ∧
        packer.token.decode d' = some (token, d) ∧ s.handlers requestId = some h ∧
        t = s.callHandler requestId h token d := by
  cases steps_of_step hs with
  | message payload =>
      rcases message_cases packer s payload with ⟨thrown, heq⟩ |
        ⟨requestId, token, d, d', h, hid, htoken, hh, heq⟩
      · rw [heq]
        exact .inl ⟨rfl, rfl, fun _ hb => .inl hb⟩
      · exact .inr (.inr ⟨payload, requestId, token, d, d', h, rfl, hid, htoken, hh, heq⟩)
  | runTask hq =>
      refine .inl ⟨rfl, rfl, fun body hb => ?_⟩
      rcases List.mem_cons.mp hb with rfl | hb
      · exact .inr ⟨_, rfl⟩
      · exact .inl hb
  | respond hstack responseId value spare => exact .inl ⟨rfl, rfl, fun _ hb => .inl hb⟩
  | send messageId formatted spare => exact .inl ⟨rfl, rfl, fun _ hb => .inl hb⟩
  | defer hstack henabled continuation =>
      refine .inl ⟨rfl, rfl, fun body hb => .inl ?_⟩
      rw [bodies, hstack]
      exact hb
  | deferFails hstack hdisabled continuation => exact .inl ⟨rfl, rfl, fun _ hb => .inl hb⟩
  | addHandler requestId handler parameter =>
      exact .inr (.inl ⟨requestId, handler, parameter, rfl, rfl⟩)
  | returns hstack =>
      refine .inl ⟨rfl, rfl, fun body hb => .inl ?_⟩
      rw [bodies, hstack]
      exact List.mem_cons_of_mem _ hb
  | sent hstack =>
      refine .inl ⟨rfl, rfl, fun body hb => .inl ?_⟩
      rw [bodies, hstack]
      exact hb
  | @throw frame rest hstack =>
      refine .inl ⟨rfl, rfl, fun body hb => .inl ?_⟩
      rw [bodies, hstack]
      exact (List.Sublist.filterMap _ (List.sublist_cons_self frame rest)).subset hb

end ServerCalls

end CohesionIpc.Strmd
