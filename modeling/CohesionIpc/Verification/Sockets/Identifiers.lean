import CohesionIpc.Verification.Sockets.Faults
import CohesionIpc.Verification.Sockets.Flight

/-! Ids of handlers: the counter wraps, and the same numbers stand for handlers in the list,
for values on their way to `handle_aux` and for the stop code. -/

namespace CohesionIpc.Sockets

open Transition

/-- The ids of the handlers are distinct and none is the stop code, and an id on its way is
that of the handler of the session that has sent it, if it is still in the list. -/
structure Identified (s : Tracked) : Prop where
  nodup : (s.server.handlers.map Handler.id).Nodup
  nonzero : ∀ h ∈ s.server.handlers, h.id ≠ 0
  flight : ∀ id c, (id, some c) ∈ s.flight → ∀ h ∈ s.server.handlers, h.id = id ↔ h.socket = c

/-- A `disconnect` removes the session it was called for and no other, as far as a step
from `s` to `t` goes. -/
structure DisconnectsOne (s : Tracked) (e : Event) (t : Tracked) : Prop where
  identified : Identified t
  /-- `handle_aux` removes the handler of the session that has sent the id. -/
  disconnect : ∀ unset fails h id c rest, e = .serve unset fails → s.server.Serves .handleAux h →
    h.socket = .aux → s.flight = (id, some c) :: rest →
      t.server.handlers = s.server.handlers.filter (·.socket ≠ c) ∧
      ((∃ h' ∈ s.server.handlers, h'.socket = c) → t.server.loop = .running)
  /-- The stop code is not taken for an id. -/
  stop : ∀ unset fails h rest, e = .serve unset fails → s.server.Serves .handleAux h →
    h.socket = .aux → s.flight = (0, none) :: rest →
      t.server.loop = .exited ∧ t.server.handlers = s.server.handlers

/-- No connection is accepted under the stop code, the id of a handler in the list or an id
on its way. -/
def FreshId (code : Surroundings) (s : Tracked) (e : Event) : Prop :=
  ∀ unset h, e = .serve unset false →
    (s.server.Serves .acceptPreinit h ∨ (s.server.Serves .acceptRegular h ∧
      ∀ c, s.server.backlog.head? = some c → code.createRaises c = false)) →
    s.server.nextId ≠ 0 ∧ (∀ h ∈ s.server.handlers, h.id ≠ s.server.nextId) ∧
      ∀ id c, (id, some c) ∈ s.flight → id ≠ s.server.nextId

namespace Server

variable {host : ByteOrder} {code : Surroundings} {s t : Server} {e : Event} {unset : UInt32}
  {fails : Bool} {h : Handler} {rest : List Handler}

/-! ## Handlers by id -/

theorem eraseP_id {l : List Handler} (hnodup : (l.map Handler.id).Nodup) (id : UInt32) :
    l.eraseP (·.id = id) = l.filter (·.id ≠ id) := by
  induction l with
  | nil => rfl
  | cons h l ih =>
      rw [List.map_cons, List.nodup_cons] at hnodup
      by_cases hid : h.id = id
      · have hrest : ∀ h' ∈ l, h'.id ≠ id := by
          intro h' hh' heq
          exact hnodup.1 (hid ▸ heq ▸ List.mem_map_of_mem hh')
        rw [List.eraseP_cons_of_pos (by simpa using hid),
          List.filter_cons_of_neg (by simpa using hid),
          List.filter_eq_self.mpr (by simpa using hrest)]
      · rw [List.eraseP_cons_of_neg (by simpa using hid),
          List.filter_cons_of_pos (by simpa using hid),
          ih hnodup.2]

/-- With distinct ids `handle_aux` removes the handler it has received the id of. -/
theorem handleAux_handlers (hnodup : (s.handlers.map Handler.id).Nodup)
    (hpending : s.pending = h :: rest) (hresult : 0 < (s.receivedId host unset h).result)
    (hs : s.handleAux host unset h rest = some t) :
    t.handlers = s.handlers.filter (·.id ≠ (s.receivedId host unset h).value) := by
  rw [handleAux_eraseP hpending hresult hs, eraseP_id hnodup]

/-- It goes on after it has removed another handler. -/
theorem handleAux_loop (hresult : 0 < (s.receivedId host unset h).result)
    (hknown : ∃ h' ∈ s.handlers, h'.id = (s.receivedId host unset h).value)
    (hother : h.id ≠ (s.receivedId host unset h).value)
    (hs : s.handleAux host unset h rest = some t) : t.loop = s.loop := by
  simp only [handleAux, hresult, hknown, hother, true_and, if_true, if_false,
    Option.ite_none_left_eq_some] at hs
  rcases hs with ⟨-, hs⟩
  split at hs
  · cases hs
    rfl
  · cases hs
    rfl

theorem handleAux_of_unknown (hresult : 0 < (s.receivedId host unset h).result)
    (hunknown : ∀ h' ∈ s.handlers, h'.id ≠ (s.receivedId host unset h).value)
    (hs : s.handleAux host unset h rest = some t) :
    t.loop = .exited ∧ t.handlers = s.handlers := by
  have hnot : ¬ ∃ h' ∈ s.handlers, h'.id = (s.receivedId host unset h).value := by
    rintro ⟨h', hh', hid⟩
    exact hunknown h' hh' hid
  simp only [handleAux, hresult, hnot, and_false, if_false, Option.ite_none_left_eq_some,
    Option.some.injEq] at hs
  rcases hs with ⟨-, rfl⟩
  exact ⟨rfl, rfl⟩

/-- A turn adds a handler under the next id, or it adds none. -/
theorem call_handlers (hpending : s.pending = h :: rest)
    (hs : s.call host code unset fails h rest = some t) :
    (t.handlers.map (fun h => (h.id, h.socket))).Sublist
        (s.handlers.map fun h => (h.id, h.socket)) ∨
      (fails = false ∧ ∃ c f, s.backlog.head? = some c ∧
        t.handlers = s.handlers ++ [⟨s.nextId, f, c⟩] ∧
        (h.handler = .acceptPreinit ∨
          (h.handler = .acceptRegular ∧ code.createRaises c = false))) := by
  have hlist := handlers_of_pending hpending
  simp only [call] at hs
  split at hs
  · rename_i hfun
    simp only [acceptPreinit] at hs
    split at hs
    · cases hs
    · rename_i c more hbacklog
      split at hs
      · cases hs
        exact .inl (List.Sublist.refl _)
      · rename_i hfails
        cases hs
        refine .inr ⟨by simpa using hfails, c, .handlePreinit, by rw [hbacklog]; rfl, ?_, .inl hfun⟩
        rw [handlers_proceed, hlist, List.append_assoc, List.cons_append]
  · rename_i hfun
    simp only [acceptRegular] at hs
    split at hs
    · cases hs
    · rename_i c more hbacklog
      split at hs
      · cases hs
        exact .inl (List.Sublist.refl _)
      · rename_i hfails
        cases hs
        rw [not_or] at hfails
        refine .inr ⟨by simpa using hfails.1, c, .handleSession, by rw [hbacklog]; rfl, ?_,
          .inr ⟨hfun, by simpa using hfails.2⟩⟩
        rw [handlers_proceed, hlist, List.append_assoc, List.cons_append]
        rfl
  · rcases handlePreinit_cases hs with ⟨rfl, -⟩ | ⟨first, others, inbox, -, -, hlist', hswitched, -⟩
    · rw [handlers_proceed, ← hlist]
      exact .inl (List.Sublist.refl _)
    · rw [hlist', hswitched]
      simp [map_place_assign]
  · rcases handleSession_cases hs with ⟨outcome, rfl, hcases⟩
    left
    rcases hcases with ⟨p, -, -, hstatus⟩ | ⟨-, -, ⟨-, -, -, hstatus⟩ | ⟨-, -, hstatus⟩⟩
    · rw [served_proceed hpending hstatus]
    · rw [(served_removeThis hstatus).1, hlist]
      exact ((List.sublist_cons_self _ _).append_left _).map _
    · rw [served_proceed hpending hstatus]
  · rcases handleAux_cases hpending hs with ⟨-, -, -, hsub, -⟩
    exact .inl (hsub.map _)

/-- An acceptor that does not fail adds a handler. -/
theorem handlers_of_accept (hh : s.Serves .acceptPreinit h ∨ (s.Serves .acceptRegular h ∧
      ∀ c, s.backlog.head? = some c → code.createRaises c = false))
    (hs : s.step host code (.serve unset false) = some t) :
    ∃ c f, s.backlog.head? = some c ∧ t.handlers = s.handlers ++ [⟨s.nextId, f, c⟩] := by
  rcases hh with hh | ⟨hh, hquiet⟩
  · rcases call_of_serves hh hs with ⟨rest, hpending, hcall⟩
    simp only [call, hh.handler, acceptPreinit, Bool.false_eq_true, if_false] at hcall
    split at hcall
    · cases hcall
    · rename_i c more hbacklog
      cases hcall
      refine ⟨c, .handlePreinit, by rw [hbacklog]; rfl, ?_⟩
      rw [handlers_proceed, handlers_of_pending hpending, List.append_assoc, List.cons_append]
  · rcases call_of_serves hh hs with ⟨rest, hpending, hcall⟩
    simp only [call, hh.handler, acceptRegular, Bool.false_eq_true, false_or] at hcall
    split at hcall
    · cases hcall
    · rename_i c more hbacklog
      rw [hquiet c (by rw [hbacklog]; rfl)] at hcall
      cases hcall
      refine ⟨c, .handleSession, by rw [hbacklog]; rfl, ?_⟩
      rw [handlers_proceed, handlers_of_pending hpending, List.append_assoc, List.cons_append]
      rfl

end Server

namespace Tracked

variable {host : ByteOrder} {code : Surroundings} {s t : Tracked} {e : Event}

theorem identified_init (host : ByteOrder) (early : ℕ) : Identified (init host early) := by
  refine ⟨?_, ?_, ?_⟩
  · simp [init, Server.handlers, Server.init]
  · simp [init, Server.handlers, Server.init]
  · simp [init]

/-- Handlers leave, and nothing new is on its way. -/
theorem identified_of_sublist (hN : Identified s)
    (hsub : (t.server.handlers.map (fun h => (h.id, h.socket))).Sublist
      (s.server.handlers.map fun h => (h.id, h.socket)))
    (hflight : ∀ v ∈ t.flight, v ∈ s.flight) : Identified t := by
  have hback : ∀ h ∈ t.server.handlers, ∃ h' ∈ s.server.handlers,
      h'.id = h.id ∧ h'.socket = h.socket := by
    intro h hh
    rcases List.mem_map.mp (hsub.subset (List.mem_map_of_mem hh)) with ⟨h', hh', heq⟩
    rw [Prod.mk.injEq] at heq
    exact ⟨h', hh', heq⟩
  have hids := hsub.map Prod.fst
  rw [List.map_map, List.map_map] at hids
  refine ⟨hN.nodup.sublist hids, ?_, ?_⟩
  · intro h hh
    rcases hback h hh with ⟨h', hh', hid, -⟩
    rw [← hid]
    exact hN.nonzero h' hh'
  · intro id c hmem h hh
    rcases hback h hh with ⟨h', hh', hid, hsocket⟩
    rw [← hid, ← hsocket]
    exact hN.flight id c (hflight _ hmem) h' hh'

theorem identified_between (hI : s.Inv host) (hN : Identified s)
    (hbetween : s.server.Between t.server)
    (hflight : t.flight = s.server.nextFlight host s.flight e) : Identified t := by
  refine ⟨?_, ?_, ?_⟩
  · rw [hbetween.handlers]
    exact hN.nodup
  · rw [hbetween.handlers]
    exact hN.nonzero
  · intro id c hmem h hh
    rw [hflight] at hmem
    rw [hbetween.handlers] at hh
    rcases mem_nextFlight hmem with hold | ⟨-, h₀, hh₀, rfl, -, rfl⟩
    · exact hN.flight id c hold h hh
    · have hsockets := (List.nodup_append'.mp hI.order.intact.nodup).1
      constructor
      · intro hid
        rw [List.inj_on_of_nodup_map hN.nodup hh hh₀ hid]
      · intro hsocket
        rw [List.inj_on_of_nodup_map hsockets hh hh₀ hsocket]

/-- A connection is accepted under an id that stands for nothing else. -/
theorem identified_accept (hI : s.Inv host) (hN : Identified s) {c : Socket} {f : HandlerFunction}
    (hc : s.server.backlog.head? = some c)
    (hlist : t.server.handlers = s.server.handlers ++ [⟨s.server.nextId, f, c⟩])
    (hflight : ∀ v ∈ t.flight, v ∈ s.flight) :
    Identified t ↔ s.server.nextId ≠ 0 ∧ (∀ h ∈ s.server.handlers, h.id ≠ s.server.nextId) ∧
      ∀ id c, (id, some c) ∈ t.flight → id ≠ s.server.nextId := by
  have hwaiting : (s.server.conns c).created = 0 :=
    (hI.order.intact.waiting c (List.mem_of_mem_head? hc)).created
  have hapart : ∀ id d, (id, some d) ∈ t.flight → c ≠ d := by
    rintro id d hmem rfl
    exact absurd hwaiting (Nat.pos_iff_ne_zero.mp (hI.known id c (hflight _ hmem)))
  constructor
  · intro hT
    have hnew : (⟨s.server.nextId, f, c⟩ : Handler) ∈ t.server.handlers := by
      rw [hlist]
      simp
    refine ⟨hT.nonzero _ hnew, ?_, ?_⟩
    · intro h hh hid
      have hnodup := hT.nodup
      rw [hlist, List.map_append, List.nodup_append'] at hnodup
      apply hnodup.2.2 (List.mem_map_of_mem hh)
      simp [hid]
    · intro id d hmem hid
      exact hapart id d hmem ((hT.flight id d hmem _ hnew).mp hid.symm)
  · rintro ⟨hnonzero, hids, hvalues⟩
    refine ⟨?_, ?_, ?_⟩
    · rw [hlist, List.map_append, List.nodup_append']
      refine ⟨hN.nodup, List.nodup_singleton _, ?_⟩
      intro id hid hnew
      rcases List.mem_map.mp hid with ⟨h, hh, rfl⟩
      simp only [List.map_cons, List.map_nil, List.mem_singleton] at hnew
      exact hids h hh hnew
    · intro h hh
      rw [hlist] at hh
      rcases List.mem_append.mp hh with hold | hnew
      · exact hN.nonzero h hold
      · rw [List.mem_singleton.mp hnew]
        exact hnonzero
    · intro id d hmem h hh
      rw [hlist] at hh
      rcases List.mem_append.mp hh with hold | hnew
      · exact hN.flight id d (hflight _ hmem) h hold
      · rw [List.mem_singleton.mp hnew]
        constructor
        · exact fun hid => absurd hid.symm (hvalues id d hmem)
        · exact fun hsocket => absurd hsocket (hapart id d hmem)

theorem identified_step (hI : s.Inv host) (hN : Identified s) (hfresh : FreshId code s e)
    (hs : s.step host code e = some t) : Identified t := by
  rcases step_server hs with ⟨hstep, hflight⟩
  by_cases hserve : ∃ unset fails, e = .serve unset fails
  · rcases hserve with ⟨unset, fails, rfl⟩
    have hsub : ∀ v ∈ t.flight, v ∈ s.flight := by
      intro v hv
      rw [hflight, Server.nextFlight] at hv
      split at hv
      · exact List.mem_of_mem_tail hv
      · exact hv
    rcases Server.serve_cases hstep with ⟨-, h, rest, hpending, ⟨-, hskip⟩ | ⟨hh, hcall⟩⟩
    · apply identified_of_sublist hN _ hsub
      rw [hskip, Server.handlers_proceed, ← Server.handlers_of_pending hpending]
    · rcases Server.call_handlers hpending hcall with hfewer | ⟨hfails, c, f, hc, hlist, haccepts⟩
      · exact identified_of_sublist hN hfewer hsub
      · have hserves : s.server.Serves .acceptPreinit h ∨ (s.server.Serves .acceptRegular h ∧
            ∀ c, s.server.backlog.head? = some c → code.createRaises c = false) := by
          rcases haccepts with hfun | ⟨hfun, hquiet⟩
          · exact .inl (hfun ▸ hh)
          · refine .inr ⟨hfun ▸ hh, ?_⟩
            intro d hd
            rw [hc] at hd
            cases hd
            exact hquiet
        have hid := hfresh unset h (by rw [hfails]) hserves
        apply (identified_accept hI hN hc hlist hsub).mpr
        exact ⟨hid.1, hid.2.1, fun id d hmem => hid.2.2 id d (hsub _ hmem)⟩
  · apply identified_between hI hN (Server.between_step hI.order.intact.auxOpen hstep _) hflight
    exact fun unset fails he => hserve ⟨unset, fails, he⟩

theorem disconnectsOne_of_identified (hI : s.Inv host) (hN : Identified s) (hT : Identified t)
    (hs : s.step host code e = some t) : DisconnectsOne s e t := by
  refine ⟨hT, ?_, ?_⟩
  · rintro unset fails h id c rest rfl hh hsocket hflight
    rcases Server.call_of_serves hh (step_server hs).1 with ⟨others, hpending, hcall⟩
    rw [Server.call, hh.handler] at hcall
    rcases receivedId_of_flight hI hh hsocket hflight unset with ⟨hcreated, hvalue, hresult⟩
    have hsame : ∀ h' ∈ s.server.handlers, h'.id = id ↔ h'.socket = c :=
      hN.flight id c (by rw [hflight]; exact List.mem_cons_self)
    constructor
    · rw [Server.handleAux_handlers hN.nodup hpending (by omega) hcall, hvalue]
      apply List.filter_congr
      intro h' hh'
      simp [hsame h' hh']
    · rintro ⟨h', hh', rfl⟩
      rw [← hh.running]
      apply Server.handleAux_loop (by omega) _ _ hcall
      · exact ⟨h', hh', hvalue ▸ (hsame h' hh').mpr rfl⟩
      · -- no session has called from the server's own connection
        intro hself
        rw [hvalue] at hself
        have hown := (hsame h (Server.mem_handlers_of_pending hpending)).mp hself
        have hknown := hI.known id h'.socket (by rw [hflight]; exact List.mem_cons_self)
        rw [← hown, hsocket, hcreated] at hknown
        exact lt_irrefl _ hknown
  · rintro unset fails h rest rfl hh hsocket hflight
    rcases Server.call_of_serves hh (step_server hs).1 with ⟨others, hpending, hcall⟩
    rw [Server.call, hh.handler] at hcall
    rcases receivedId_of_flight hI hh hsocket hflight unset with ⟨-, hvalue, hresult⟩
    apply Server.handleAux_of_unknown (by omega) _ hcall
    intro h' hh'
    rw [hvalue]
    exact hN.nonzero h' hh'

theorem freshId_of_identified (hI : s.Inv host) (hN : Identified s) (hT : Identified t)
    (hs : s.step host code e = some t) : FreshId code s e := by
  rintro unset h rfl hh
  rcases step_server hs with ⟨hstep, hflight⟩
  rcases Server.handlers_of_accept hh hstep with ⟨c, f, hc, hlist⟩
  have hsame : t.flight = s.flight := by
    rw [hflight, Server.nextFlight, if_neg]
    rcases hh with hh | ⟨hh, -⟩ <;> simp [Server.takes, hh.next, hh.handler]
  rw [← hsame]
  exact (identified_accept hI hN hc hlist fun v hv => hsame ▸ hv).mp hT

end Tracked

/-- For every session code and every order of connections, accepts and removals: ids tell the
handlers apart and a `disconnect` removes the session it was called for throughout the run
exactly when no connection is accepted under an id that stands for something else. -/
theorem disconnects_one_iff (host : ByteOrder) (code : Surroundings) (early : ℕ)
    {events : List Event}
    (hrun : (run (Tracked.step host code) (.init host early) events).isSome) :
    Through (Tracked.step host code) DisconnectsOne (.init host early) events ↔
      Along (Tracked.step host code) (FreshId code) (.init host early) events := by
  apply through_iff_along_of_step fun s => s.Inv host ∧ Identified s
  · intro s e t hI hfresh hs
    have hT := Tracked.identified_step hI.1 hI.2 hfresh hs
    exact ⟨⟨Tracked.inv_step hI.1 hs, hT⟩, Tracked.disconnectsOne_of_identified hI.1 hI.2 hT hs⟩
  · exact fun s e t hI hs hT => Tracked.freshId_of_identified hI.1 hI.2 hT.identified hs
  · exact ⟨Tracked.inv_init host early, Tracked.identified_init host early⟩
  · exact hrun

/-- A session on the first connection disconnects it. -/
theorem disconnects_one_iff_first_client :
    Through (Tracked.step .littleEndian .quiet) DisconnectsOne (.init .littleEndian 0)
        (startUp ++
          [.connect, .select, .turn, .turn, .turn, .disconnect 102, .select, .turn, .turn]) ↔
      Along (Tracked.step .littleEndian .quiet) (FreshId .quiet) (.init .littleEndian 0)
        (startUp ++
          [.connect, .select, .turn, .turn, .turn, .disconnect 102, .select, .turn, .turn]) :=
  disconnects_one_iff .littleEndian .quiet 0 (by rfl)

/-! ## The counter wraps -/

/-- The `n`-th client connects, gets a session and leaves. -/
def visit (n : ℕ) : List Event :=
  [.connect, .select, .turn, .turn, .turn, .close n, .select, .turn, .turn, .turn]

def visits : ℕ → List Event
  | 0 => []
  | n + 1 => visits n ++ visit n

/-- `n` clients have come and gone. -/
structure Server.Idle (n : ℕ) (s : Server) : Prop where
  visited : s.visited = [⟨100, .acceptRegular, .listener⟩, ⟨101, .handleAux, .aux⟩]
  pending : s.pending = []
  backlog : s.backlog = []
  nextId : s.nextId = UInt32.ofNat (102 + n)
  clients : s.clients = n
  loop : s.loop = .running
  aux : (s.conns .aux).inbox = [] ∧ (s.conns .aux).closed = false
  unknown : ∀ m, n ≤ m → s.conns (.client m) = ⟨[], [], false, 0, []⟩

/-- A handler is removed at the end of the stream. -/
theorem Server.handleSession_of_closed {host : ByteOrder} {code : Surroundings} {s : Server}
    {unset : UInt32} {h : Handler} {rest : List Handler} (hinbox : (s.conns h.socket).inbox = [])
    (hclosed : (s.conns h.socket).closed = true) :
    Server.handleSession host code s unset h rest = some { s with
      conns := Function.update s.conns h.socket
        { s.conns h.socket with log := (s.conns h.socket).log ++ [.disconnect] }
      pending := rest } := by
  have hend := Sockets.handleSession_of_end host .ofList unset s.buffer (s := []) rfl
  rcases hend with ⟨hcall, hbuffer, hstream, hstatus⟩
  have hrest : (Sockets.handleSession host .ofList unset s.buffer []).stream = [] := hstream
  simp only [Server.handleSession, Connection.waits_of_closed hclosed, Bool.false_eq_true, if_false,
    hinbox, hclosed, served, hcall, hbuffer, hrest, hstatus, onConnection]

theorem Server.idle_visit (host : ByteOrder) {n : ℕ} {s : Server} (hs : s.Idle n) :
    ∃ t, run (Server.step host .quiet) s (visit n) = some t ∧ t.Idle (n + 1) := by
  rcases s with ⟨conns, clients, backlog, nextId, buffer, visited, pending, ready, stopSent, loop⟩
  rcases hs with ⟨hvisited, hpending, hbacklog, hnextId, hclients, hloop, haux, hunknown⟩
  simp only at hvisited hpending hbacklog hnextId hclients hloop haux hunknown
  subst hvisited hpending hbacklog hnextId hclients hloop
  have hn := hunknown clients le_rfl
  have hrun : run (Server.step host .quiet)
      ⟨conns, clients, [], UInt32.ofNat (102 + clients), buffer,
      [⟨100, .acceptRegular, .listener⟩, ⟨101, .handleAux, .aux⟩], [], ready, stopSent, .running⟩
        (visit clients) =
          some ⟨Function.update conns (.client clients) ⟨[], [], true, 1, [.disconnect]⟩,
          clients + 1, [], UInt32.ofNat (102 + clients) + 1, buffer,
          [⟨100, .acceptRegular, .listener⟩, ⟨101, .handleAux, .aux⟩], [], [.client clients],
          stopSent, .running⟩ := by
    simp [visit, run, Server.step, Server.readable, Server.serve, Server.call, Event.turn, haux,
      Server.acceptRegular, Surroundings.quiet, Server.proceed, Server.onConnection, hn,
      Server.handleSession_of_closed]
  refine ⟨_, hrun, rfl, rfl, rfl, ?_, rfl, rfl, ?_, ?_⟩
  · simp [UInt32.add_assoc]
  · simpa [Function.update_of_ne] using haux
  · intro m hm
    have hne : Socket.client m ≠ .client clients := by
      simp only [ne_eq, Socket.client.injEq]
      omega
    simpa [Function.update_of_ne hne] using hunknown m (by omega)

/-- The next client is accepted under the next id. -/
theorem Server.idle_accept (host : ByteOrder) {n : ℕ} {s : Server} (hs : s.Idle n) :
    ∃ t, run (Server.step host .quiet) s [.connect, .select, .turn] = some t ∧
      t.handlers = s.handlers ++ [⟨UInt32.ofNat (102 + n), .handleSession, .client n⟩] := by
  rcases s with ⟨conns, clients, backlog, nextId, buffer, visited, pending, ready, stopSent, loop⟩
  rcases hs with ⟨hvisited, hpending, hbacklog, hnextId, hclients, hloop, haux, hunknown⟩
  simp only at hvisited hpending hbacklog hnextId hclients hloop haux hunknown
  subst hvisited hpending hbacklog hnextId hclients hloop
  simp [run, Server.step, Server.readable, Server.serve, Server.call, Event.turn, haux,
    Server.acceptRegular, Surroundings.quiet, Server.proceed, Server.onConnection, Server.handlers]

theorem Server.idle_visits (host : ByteOrder) (n : ℕ) :
    ∃ t, run (Server.step host .quiet) (.init host 0) (startUp ++ visits n) = some t ∧
      t.Idle n := by
  induction n with
  | zero =>
      cases host with
      | littleEndian => exact ⟨_, rfl, rfl, rfl, rfl, rfl, rfl, rfl, ⟨rfl, rfl⟩, fun m _ => rfl⟩
      | bigEndian => exact ⟨_, rfl, rfl, rfl, rfl, rfl, rfl, rfl, ⟨rfl, rfl⟩, fun m _ => rfl⟩
  | succ n ih =>
      rcases ih with ⟨s, hrun, hidle⟩
      rcases idle_visit host hidle with ⟨t, hvisit, ht⟩
      refine ⟨t, ?_, ht⟩
      rw [visits, ← List.append_assoc]
      exact run_append_eq_some.mpr ⟨s, hrun, hvisit⟩

/-- When 2³² - 102 clients have come and gone, the next one gets the stop code for an id. -/
theorem wrapped_id_is_stop_code :
    (∃ t, run (Tracked.step .littleEndian .quiet) (.init .littleEndian 0)
        (startUp ++ visits (2 ^ 32 - 102) ++ [.connect, .select, .turn]) = some t ∧
      ∃ h ∈ t.server.handlers, h.id = 0) ∧
    ¬ Through (Tracked.step .littleEndian .quiet) DisconnectsOne (.init .littleEndian 0)
      (startUp ++ visits (2 ^ 32 - 102) ++ [.connect, .select, .turn]) := by
  have hend : ∃ t, run (Tracked.step .littleEndian .quiet) (.init .littleEndian 0)
      (startUp ++ visits (2 ^ 32 - 102) ++ [.connect, .select, .turn]) = some t ∧
        ∃ h ∈ t.server.handlers, h.id = 0 := by
    rcases Server.idle_visits .littleEndian (2 ^ 32 - 102) with ⟨s, hrun, hidle⟩
    rcases Server.idle_accept .littleEndian hidle with ⟨t, hlast, hlist⟩
    rcases Tracked.run_server (s := .init .littleEndian 0)
      (run_append_eq_some.mpr ⟨s, hrun, hlast⟩) with ⟨u, hu, rfl⟩
    refine ⟨u, hu, ⟨UInt32.ofNat (102 + (2 ^ 32 - 102)), .handleSession, .client (2 ^ 32 - 102)⟩,
      ?_, ?_⟩
    · rw [hlist]
      simp
    · decide
  refine ⟨hend, ?_⟩
  rcases hend with ⟨t, hrun, h, hh, hzero⟩
  intro hall
  rw [show startUp ++ visits (2 ^ 32 - 102) ++ [Event.connect, .select, .turn] =
    (startUp ++ visits (2 ^ 32 - 102) ++ [Event.connect, .select]) ++ [.turn] by simp] at hall hrun
  rcases through_concat hall hrun with ⟨m, hm⟩
  exact hm.identified.nonzero h hh hzero

end CohesionIpc.Sockets
