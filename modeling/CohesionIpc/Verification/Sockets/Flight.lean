import CohesionIpc.Verification.Sockets.Connections

/-! The values on their way to `handle_aux`: each is written and taken as a whole, so the
stream of the server's own connection never gets out of step. -/

namespace CohesionIpc.Sockets

open Transition ByteRepresentation

/-- A value on its way, beside the connection of the session that has called `disconnect`. -/
abbrev Flight := List (UInt32 × Option Socket)

/-- What the values look like on the wire. -/
def Flight.bytes (host : ByteOrder) (flight : Flight) : List UInt8 :=
  flight.flatMap fun v => sendScalar host v.1

namespace Server

/-- The next turn takes a value from the server's own connection. -/
def takes (host : ByteOrder) (s : Server) (unset : UInt32) : Bool :=
  match s.pending.head? with
  | none => false
  | some h => decide (h.socket = .aux ∧ h.socket ∈ s.ready ∧
      (h.handler = .handleAux ∨ (h.handler = .handlePreinit ∧ s.FindsMagic host unset h)))

/-- The connection of the session that is behind an id. -/
def origin (s : Server) (id : UInt32) : Option Socket :=
  (s.handlers.find? fun h => h.id = id ∧ h.handler = .handleSession).map Handler.socket

def nextFlight (host : ByteOrder) (s : Server) (flight : Flight) : Event → Flight
  | .disconnect id => flight ++ [(id, s.origin id)]
  | .stop => flight ++ [(0, none)]
  | .serve unset _ => if s.takes host unset then flight.tail else flight
  | .connect | .send .. | .close _ | .select | .selectFails => flight

/-- Every handler on `handle_session` has a session. -/
def SessionsCreated (s : Server) : Prop :=
  ∀ h ∈ s.handlers, h.handler = .handleSession → 0 < (s.conns h.socket).created

/-- The server's own connection holds just the values, as long as it is not read as a
session. -/
def Aligned (host : ByteOrder) (s : Server) (flight : Flight) : Prop :=
  (s.conns .aux).created = 0 → (s.conns .aux).inbox = flight.bytes host

variable {host : ByteOrder} {code : Surroundings} {s t : Server} {e : Event} {unset : UInt32}
  {fails : Bool} {h : Handler} {rest : List Handler} {flight : Flight}

@[simp] theorem length_sendScalar (host : ByteOrder) (v : UInt32) :
    (sendScalar host v).length = 4 :=
  length_reorder host (length_bytes host v)

theorem bytes_append (host : ByteOrder) (flight : Flight) (v : UInt32 × Option Socket) :
    Flight.bytes host (flight ++ [v]) = flight.bytes host ++ sendScalar host v.1 := by
  simp [Flight.bytes]

theorem drop_bytes (host : ByteOrder) (flight : Flight) :
    (flight.bytes host).drop 4 = Flight.bytes host flight.tail := by
  cases flight with
  | nil => rfl
  | cons v flight =>
      rw [Flight.bytes, List.flatMap_cons, List.drop_left' (length_sendScalar host v.1)]
      rfl

/-- The value in front is the one that `handle_aux` receives. -/
theorem receivedId_of_bytes {v : UInt32 × Option Socket} (hinbox : (s.conns h.socket).inbox =
    Flight.bytes host (v :: flight)) :
    (s.receivedId host unset h).value = v.1 ∧ (s.receivedId host unset h).result = 4 := by
  have htake : ((s.conns h.socket).inbox).take 4 = bytes .bigEndian v.1 := by
    rw [hinbox, Flight.bytes, List.flatMap_cons, List.take_left' (length_sendScalar host v.1),
      sendScalar, reorder_bytes]
  have hlen : 4 ≤ (ReadFunction.ofList.unread (s.conns h.socket).inbox).length := by
    change 4 ≤ ((s.conns h.socket).inbox).length
    rw [hinbox, Flight.bytes, List.flatMap_cons, List.length_append, length_sendScalar]
    omega
  have hheader := recvScalar_of_header host .ofList unset hlen
  refine ⟨?_, hheader.2.1⟩
  rw [receivedId, hheader.1]
  change value .bigEndian (((s.conns h.socket).inbox).take 4) = v.1
  rw [htake, value_bytes]

/-! ## Turns -/

theorem takes_of_serves (hh : s.Serves h.handler h) :
    s.takes host unset = true ↔ h.socket = .aux ∧
      (h.handler = .handleAux ∨ (h.handler = .handlePreinit ∧ s.FindsMagic host unset h)) := by
  simp [takes, hh.next, hh.ready]

theorem created_switchedConns (conns : Socket → Connection) (self : Handler)
    (others : List Handler) (inbox : List UInt8) (c : Socket) :
    (conns c).created ≤ (switchedConns code conns self others inbox c).created := by
  rw [switchedConns]
  split
  · exact le_rfl
  · split
    · exact Nat.le_succ _
    · exact le_rfl

/-- No session is taken back. -/
theorem created_le_call (hpending : s.pending = h :: rest)
    (hs : s.call host code unset fails h rest = some t) (c : Socket) :
    (s.conns c).created ≤ (t.conns c).created := by
  simp only [call] at hs
  split at hs
  · rcases acceptPreinit_cases hs with rfl | ⟨d, more, -, rfl⟩ <;> exact le_rfl
  · rcases acceptRegular_cases hs with rfl | ⟨d, more, -, rfl⟩
    · exact le_rfl
    · simp only [proceed, onConnection]
      by_cases hc : c = d
      · rw [hc, Function.update_self]
        exact Nat.le_succ _
      · rw [Function.update_of_ne hc]
  · rcases handlePreinit_cases hs with ⟨rfl, -⟩ | ⟨first, others, inbox, -, -, -, -, hconns, -⟩
    · exact le_rfl
    · rw [hconns]
      exact created_switchedConns _ _ _ _ c
  · rcases handleSession_cases hs with ⟨outcome, rfl, -⟩
    rw [served_conns]
    exact (field_update Connection.created (by rfl) c).ge
  · rcases handleAux_cases hpending hs with ⟨hconns, -⟩
    rw [hconns]
    exact (field_update Connection.created (by rfl) c).ge

theorem created_le_step (haux : (s.conns .aux).closed = false)
    (hs : s.step host code e = some t) (c : Socket) :
    (s.conns c).created ≤ (t.conns c).created := by
  by_cases hserve : ∃ unset fails, e = .serve unset fails
  · rcases hserve with ⟨unset, fails, rfl⟩
    rcases serve_cases hs with ⟨-, h, rest, hpending, ⟨-, rfl⟩ | ⟨-, hcall⟩⟩
    · exact le_rfl
    · exact created_le_call hpending hcall c
  · have hbetween := between_step haux hs fun unset fails he => hserve ⟨unset, fails, he⟩
    exact (hbetween.evolves c).created.ge

/-- A new handler on `handle_session` has got its session in the same turn. -/
theorem sessionsCreated_call (hS : s.SessionsCreated) (hpending : s.pending = h :: rest)
    (hs : s.call host code unset fails h rest = some t) : t.SessionsCreated := by
  have hmono := created_le_call hpending hs
  have hsub : (∀ h' ∈ t.handlers, h' ∈ s.handlers) → t.SessionsCreated := fun hsub h' hh' hfun =>
    (hS h' (hsub h' hh') hfun).trans_le (hmono h'.socket)
  have hlist := handlers_of_pending hpending
  simp only [call] at hs
  split at hs
  · rcases acceptPreinit_cases hs with rfl | ⟨c, more, -, rfl⟩
    · exact hsub fun _ hh' => hh'
    · intro h' hh' hfun
      rw [handlers_proceed, ← List.cons_append, ← List.append_assoc, ← hlist] at hh'
      rcases List.mem_append.mp hh' with hold | hnew
      · exact hS h' hold hfun
      · rw [List.mem_singleton.mp hnew] at hfun
        cases hfun
  · rcases acceptRegular_cases hs with rfl | ⟨c, more, -, rfl⟩
    · exact hsub fun _ hh' => hh'
    · intro h' hh' hfun
      rw [handlers_proceed, ← List.cons_append, ← List.append_assoc] at hh'
      rcases List.mem_append.mp hh' with hold | hnew
      · exact (hS h' (by rw [hlist]; exact hold) hfun).trans_le (hmono h'.socket)
      · rw [List.mem_singleton.mp hnew]
        simp only [proceed, onConnection, Function.update_self]
        exact Nat.succ_pos _
  · rcases handlePreinit_cases hs with ⟨rfl, -⟩ | ⟨first, others, inbox, -, -, hlist', hswitched,
      hconns, -⟩
    · apply hsub
      intro h' hh'
      rwa [handlers_proceed, ← hlist] at hh'
    · intro h' hh' hfun
      rw [hswitched] at hh'
      rcases List.mem_cons.mp hh' with rfl | hh'
      · cases hfun
      · rcases mem_assign hh' with ⟨haux, -⟩ | ⟨-, hgiven⟩ | ⟨-, hold⟩
        · rw [hfun] at haux
          cases haux
        · rw [hconns, switchedConns, if_neg (mem_sessions_assign hgiven).2, if_pos hgiven]
          exact Nat.succ_pos _
        · have hmem : h' ∈ s.handlers := by
            rw [hlist']
            exact List.mem_cons_of_mem _ hold
          exact (hS h' hmem hfun).trans_le (hmono h'.socket)
  · rcases handleSession_cases hs with ⟨outcome, rfl, hcases⟩
    apply hsub
    intro h' hh'
    rcases hcases with ⟨p, -, -, hstatus⟩ | ⟨-, -, ⟨-, -, -, hstatus⟩ | ⟨-, -, hstatus⟩⟩
    · rwa [served_proceed hpending hstatus] at hh'
    · rw [(served_removeThis hstatus).1] at hh'
      rw [hlist]
      exact (List.sublist_cons_self _ _).append_left _ |>.subset hh'
    · rwa [served_proceed hpending hstatus] at hh'
  · rcases handleAux_cases hpending hs with ⟨-, -, -, hsubset, -⟩
    exact hsub fun h' hh' => hsubset.subset hh'

theorem sessionsCreated_step (haux : (s.conns .aux).closed = false) (hS : s.SessionsCreated)
    (hs : s.step host code e = some t) : t.SessionsCreated := by
  by_cases hserve : ∃ unset fails, e = .serve unset fails
  · rcases hserve with ⟨unset, fails, rfl⟩
    rcases serve_cases hs with ⟨-, h, rest, hpending, ⟨-, rfl⟩ | ⟨-, hcall⟩⟩
    · intro h' hh' hfun
      rw [handlers_proceed, ← handlers_of_pending hpending] at hh'
      exact hS h' hh' hfun
    · exact sessionsCreated_call hS hpending hcall
  · have hbetween := between_step haux hs fun unset fails he => hserve ⟨unset, fails, he⟩
    intro h' hh' hfun
    rw [hbetween.handlers] at hh'
    rw [(hbetween.evolves _).created]
    exact hS h' hh' hfun

/-- A turn leaves the server's own connection alone or takes one value from it. -/
theorem auxInbox_call (hS : s.SessionsCreated) (hh : s.Serves h.handler h)
    (hpending : s.pending = h :: rest) (hs : s.call host code unset fails h rest = some t)
    (hcreated : (t.conns .aux).created = 0) :
    (t.conns .aux).inbox =
      if s.takes host unset then (s.conns .aux).inbox.drop 4 else (s.conns .aux).inbox := by
  have htakes : s.takes host unset = true ↔ h.socket = .aux ∧
      (h.handler = .handleAux ∨ (h.handler = .handlePreinit ∧ s.FindsMagic host unset h)) :=
    takes_of_serves hh
  have hleave : s.takes host unset = false → (t.conns .aux).inbox = (s.conns .aux).inbox →
      (t.conns .aux).inbox =
        if s.takes host unset then (s.conns .aux).inbox.drop 4 else (s.conns .aux).inbox := by
    intro hnot hsame
    rw [hnot, if_neg Bool.false_ne_true, hsame]
  simp only [call] at hs
  split at hs
  · rename_i hfun
    refine hleave (by simp [Bool.eq_false_iff, htakes, hfun]) ?_
    rcases acceptPreinit_cases hs with rfl | ⟨d, more, -, rfl⟩ <;> rfl
  · rename_i hfun
    refine hleave (by simp [Bool.eq_false_iff, htakes, hfun]) ?_
    rcases acceptRegular_cases hs with rfl | ⟨d, more, -, rfl⟩
    · rfl
    · exact field_update Connection.inbox (by rfl) _
  · rename_i hfun
    rcases handlePreinit_cases hs with ⟨rfl, hnot⟩ | ⟨first, others, inbox, hfound, rfl, -, -,
      hconns, -⟩
    · exact hleave (by simp [Bool.eq_false_iff, htakes, hfun, hnot]) rfl
    · by_cases hsocket : h.socket = .aux
      · rw [htakes.mpr ⟨hsocket, .inr ⟨hfun, hfound⟩⟩, if_pos rfl, hconns, switchedConns,
          if_pos hsocket.symm, hsocket]
      · refine hleave (by simp [Bool.eq_false_iff, htakes, hsocket]) ?_
        rw [hconns, switchedConns, if_neg (Ne.symm hsocket)]
        split <;> rfl
  · rename_i hfun
    refine hleave (by simp [Bool.eq_false_iff, htakes, hfun]) ?_
    rcases handleSession_cases hs with ⟨outcome, rfl, -⟩
    have hne : Socket.aux ≠ h.socket := by
      intro hsocket
      have hpos := hS h (mem_handlers_of_pending hpending) hfun
      rw [served_conns, hsocket, Function.update_self] at hcreated
      exact absurd hcreated (Nat.pos_iff_ne_zero.mp hpos)
    rw [served_conns, Function.update_of_ne hne]
  · rename_i hfun
    rcases handleAux_cases hpending hs with ⟨hconns, -⟩
    by_cases hsocket : h.socket = .aux
    · rw [htakes.mpr ⟨hsocket, .inl hfun⟩, if_pos rfl, hconns, hsocket, Function.update_self]
    · refine hleave (by simp [Bool.eq_false_iff, htakes, hsocket]) ?_
      rw [hconns, Function.update_of_ne (Ne.symm hsocket)]

/-- The stream of the server's own connection stays in step with the values. -/
theorem aligned_step (haux : (s.conns .aux).closed = false) (hS : s.SessionsCreated)
    (hA : s.Aligned host flight) (hs : s.step host code e = some t) :
    t.Aligned host (s.nextFlight host flight e) := by
  intro hcreated
  have hinbox := hA (Nat.le_zero.mp (hcreated ▸ created_le_step haux hs .aux))
  cases e with
  | serve unset fails =>
      rcases serve_cases hs with ⟨-, h, rest, hpending, ⟨hready, rfl⟩ | ⟨hserves, hcall⟩⟩
      · have htakes : s.takes host unset = false := by simp [takes, hpending, hready]
        rw [nextFlight, htakes, if_neg Bool.false_ne_true]
        exact hinbox
      · rw [auxInbox_call hS hserves hpending hcall hcreated, hinbox, nextFlight]
        split
        · exact drop_bytes host flight
        · rfl
  | disconnect id =>
      simp only [step, Option.ite_none_right_eq_some, Option.some.injEq] at hs
      rcases hs with ⟨-, rfl⟩
      rw [nextFlight, bytes_append]
      simp [onConnection, Connection.receive, hinbox]
  | stop =>
      simp only [step, Option.ite_none_left_eq_some, Option.some.injEq] at hs
      rcases hs with ⟨-, rfl⟩
      rw [nextFlight, bytes_append]
      simp [onConnection, Connection.receive, hinbox]
  | connect =>
      cases hs
      exact hinbox
  | send n bytes =>
      simp only [step, Option.ite_none_right_eq_some, Option.some.injEq] at hs
      rcases hs with ⟨-, rfl⟩
      simpa [onConnection, nextFlight] using hinbox
  | close n =>
      simp only [step, Option.ite_none_right_eq_some, Option.some.injEq] at hs
      rcases hs with ⟨-, rfl⟩
      simpa [onConnection, nextFlight] using hinbox
  | select =>
      simp only [step, Option.ite_none_right_eq_some, Option.some.injEq] at hs
      rcases hs with ⟨-, rfl⟩
      exact hinbox
  | selectFails =>
      simp only [step, Option.ite_none_right_eq_some, Option.some.injEq] at hs
      rcases hs with ⟨-, rfl⟩
      exact hinbox

/-- At the start the magic is on its way. -/
theorem aligned_init (host : ByteOrder) (early : ℕ) :
    (init host early).Aligned host [(initMagic, none)] := by
  intro _
  simp [init, Flight.bytes]

end Server

/-! ## A server beside the values -/

/-- A server beside the values on their way to its `handle_aux`. -/
structure Tracked where
  server : Server
  flight : Flight

namespace Tracked

def init (host : ByteOrder) (early : ℕ) : Tracked where
  server := .init host early
  flight := [(initMagic, none)]

def step (host : ByteOrder) (code : Surroundings) (s : Tracked) (e : Event) : Option Tracked :=
  (s.server.step host code e).map fun t => ⟨t, s.server.nextFlight host s.flight e⟩

/-- What holds whatever the ids are. -/
structure Inv (host : ByteOrder) (s : Tracked) : Prop where
  order : s.server.InOrder fun _ => False
  sessions : s.server.SessionsCreated
  aligned : s.server.Aligned host s.flight
  known : ∀ id c, (id, some c) ∈ s.flight → 0 < (s.server.conns c).created

variable {host : ByteOrder} {code : Surroundings} {s t : Tracked} {e : Event}

theorem step_server (hs : s.step host code e = some t) :
    s.server.step host code e = some t.server ∧ t.flight = s.server.nextFlight host s.flight e := by
  rcases Option.map_eq_some_iff.mp hs with ⟨t', ht, rfl⟩
  exact ⟨ht, rfl⟩

/-- What is on its way after a step was on its way or has been sent by a session. -/
theorem mem_nextFlight {id : UInt32} {c : Socket}
    (hmem : (id, some c) ∈ s.server.nextFlight host s.flight e) :
    (id, some c) ∈ s.flight ∨ (e = .disconnect id ∧
      ∃ h ∈ s.server.handlers, h.id = id ∧ h.handler = .handleSession ∧ h.socket = c) := by
  cases e with
  | disconnect id' =>
      rcases List.mem_append.mp hmem with hold | hnew
      · exact .inl hold
      · right
        rw [List.mem_singleton, Prod.mk.injEq] at hnew
        rcases hnew with ⟨rfl, horigin⟩
        rcases Option.map_eq_some_iff.mp horigin.symm with ⟨h, hfind, rfl⟩
        have hh := List.find?_some hfind
        simp only [decide_eq_true_eq] at hh
        exact ⟨rfl, h, List.mem_of_find?_eq_some hfind, hh.1, hh.2, rfl⟩
  | stop =>
      rcases List.mem_append.mp hmem with hold | hnew
      · exact .inl hold
      · simp at hnew
  | serve unset fails =>
      simp only [Server.nextFlight] at hmem
      split at hmem
      · exact .inl (List.mem_of_mem_tail hmem)
      · exact .inl hmem
  | connect => exact .inl hmem
  | send n bytes => exact .inl hmem
  | close n => exact .inl hmem
  | select => exact .inl hmem
  | selectFails => exact .inl hmem

theorem inv_init (host : ByteOrder) (early : ℕ) : (init host early).Inv host := by
  refine ⟨Server.inOrder_init _ host early, ?_, Server.aligned_init host early, ?_⟩
  · intro h hh hfun
    simp only [init, Server.handlers, Server.init, List.append_nil, List.mem_singleton] at hh
    rw [hh] at hfun
    cases hfun
  · simp [init]

theorem inv_step (hI : s.Inv host) (hs : s.step host code e = some t) : t.Inv host := by
  rcases step_server hs with ⟨hstep, hflight⟩
  have hopen := hI.order.intact.auxOpen
  refine ⟨Server.inOrder_step hI.order (fun _ _ _ _ _ hw => hw.elim) hstep,
    Server.sessionsCreated_step hopen hI.sessions hstep, ?_, ?_⟩
  · rw [hflight]
    exact Server.aligned_step hopen hI.sessions hI.aligned hstep
  · intro id c hmem
    rw [hflight] at hmem
    have hle := Server.created_le_step hopen hstep c
    rcases mem_nextFlight hmem with hold | ⟨-, h, hh, -, hfun, rfl⟩
    · exact (hI.known id c hold).trans_le hle
    · exact (hI.sessions h hh hfun).trans_le hle

/-- The value in front is what `handle_aux` receives on the server's own connection. -/
theorem receivedId_of_flight (hI : s.Inv host) {h : Handler} (hh : s.server.Serves .handleAux h)
    (hsocket : h.socket = .aux) {v : UInt32 × Option Socket} {flight : Flight}
    (hflight : s.flight = v :: flight) (unset : UInt32) :
    (s.server.conns .aux).created = 0 ∧ (s.server.receivedId host unset h).value = v.1 ∧
      (s.server.receivedId host unset h).result = 4 := by
  have hmem : h ∈ s.server.handlers := List.mem_append_right _ (List.mem_of_mem_head? hh.next)
  have hfun := hh.handler
  have hcreated := (hI.order.switched hh.running hmem (by simp [hfun]) (by simp [hfun]) h hmem).2.2
    hfun
  rw [hsocket] at hcreated
  have hinbox := hI.aligned hcreated
  rw [hflight, ← hsocket] at hinbox
  exact ⟨hcreated, Server.receivedId_of_bytes hinbox⟩

/-- The states of the server are those of its run beside the values on their way. -/
theorem run_server {host : ByteOrder} {code : Surroundings} {s : Tracked}
    {events : List Event} {t : Server}
    (hrun : run (Server.step host code) s.server events = some t) :
    ∃ u, run (Tracked.step host code) s events = some u ∧ u.server = t := by
  induction events generalizing s with
  | nil =>
      cases hrun
      exact ⟨s, rfl, rfl⟩
  | cons e events ih =>
      rcases run_cons_eq_some.mp hrun with ⟨m, hm, hrest⟩
      rcases ih (s := ⟨m, s.server.nextFlight host s.flight e⟩) hrest with ⟨u, hu, hserver⟩
      refine ⟨u, run_cons_eq_some.mpr ⟨_, ?_, hu⟩, hserver⟩
      rw [step, hm]
      rfl

theorem along_server {P : Server → Event → Prop} {events : List Event}
    (h : Along (Server.step host code) P s.server events) :
    Along (Tracked.step host code) (fun s e => P s.server e) s events := by
  induction events generalizing s with
  | nil => trivial
  | cons e events ih => exact ⟨h.1, fun m hm => ih (h.2 m.server (step_server hm).1)⟩

end Tracked

end CohesionIpc.Sockets
