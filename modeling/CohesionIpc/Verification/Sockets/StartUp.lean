import CohesionIpc.Verification.Sockets.Flight
import CohesionIpc.Verification.Sockets.Handshake

/-! What start-up keeps: the place of the acceptor, one handler for the server's own
connection, and every byte of a client until its session exists. -/

namespace CohesionIpc.Sockets

open Transition ByteRepresentation

namespace Server

/-- The acceptor comes first, under the id it got from the constructor. -/
def Headed (s : Server) : Prop :=
  ∃ first others, s.handlers = first :: others ∧ first.id = 100 ∧ first.socket = .listener ∧
    (first.handler = .acceptPreinit ∨ first.handler = .acceptRegular)

/-- The magic has been handled, and the loop goes on. -/
def Recognised (s : Server) : Prop :=
  s.loop = .running ∧ ∃ h ∈ s.handlers, h.handler = .acceptRegular

/-- Every client in the list has one session, and nobody waits any more. -/
structure Assigned (s : Server) : Prop where
  session : ∀ h ∈ s.handlers, ∀ n, h.socket = .client n →
    h.handler = .handleSession ∧ (s.conns h.socket).created = 1
  preinit : ∀ h ∈ s.handlers, h.handler ≠ .acceptPreinit ∧ h.handler ≠ .handlePreinit

/-- A session that comes into being in this step, or later, starts at the first byte. -/
def KeepsBytes (s : Server) (_ : Event) (t : Server) : Prop :=
  ∀ n, (s.conns (.client n)).created = 0 →
    (t.conns (.client n)).inbox = (t.conns (.client n)).sent ∧ (t.conns (.client n)).log = []

/-- No client has sent the magic in place of the length of its first frame. -/
def NoMagicSent (host : ByteOrder) (s : Server) : Prop :=
  ∀ n, ((s.conns (.client n)).sent).take 4 ≠ sendScalar host initMagic

/-- Nothing is taken from a client before it has a session. -/
def Fresh (s : Server) : Prop :=
  ∀ n, (s.conns (.client n)).created = 0 → (s.conns (.client n)).Untouched

variable {host : ByteOrder} {code : Surroundings} {s t : Server} {e : Event} {unset : UInt32}
  {fails : Bool} {h : Handler} {rest : List Handler}

/-! ## The bytes of the clients -/

theorem sent_call (hpending : s.pending = h :: rest)
    (hs : s.call host code unset fails h rest = some t) (c : Socket) :
    (t.conns c).sent = (s.conns c).sent := by
  simp only [call] at hs
  split at hs
  · rcases acceptPreinit_cases hs with rfl | ⟨d, more, -, rfl⟩ <;> rfl
  · rcases acceptRegular_cases hs with rfl | ⟨d, more, -, rfl⟩
    · rfl
    · exact field_update Connection.sent (by rfl) c
  · rcases handlePreinit_cases hs with ⟨rfl, -⟩ | ⟨first, others, inbox, -, -, -, -, hconns, -⟩
    · rfl
    · rw [hconns, switchedConns]
      split
      · rfl
      · split <;> rfl
  · rcases handleSession_cases hs with ⟨outcome, rfl, -⟩
    rw [served_conns]
    exact field_update Connection.sent (by rfl) c
  · rcases handleAux_cases hpending hs with ⟨hconns, -⟩
    rw [hconns]
    exact field_update Connection.sent (by rfl) c

/-- What has been sent stays in front of what is sent later. -/
theorem sent_prefix_step (haux : (s.conns .aux).closed = false)
    (hs : s.step host code e = some t) (c : Socket) : (s.conns c).sent <+: (t.conns c).sent := by
  by_cases hserve : ∃ unset fails, e = .serve unset fails
  · rcases hserve with ⟨unset, fails, rfl⟩
    rcases serve_cases hs with ⟨-, h, rest, hpending, ⟨-, rfl⟩ | ⟨-, hcall⟩⟩
    · exact List.prefix_rfl
    · rw [sent_call hpending hcall c]
  · exact (between_step haux hs fun unset fails he => hserve ⟨unset, fails, he⟩).sent c

theorem noMagicSent_of_prefix (hsent : ∀ c, (s.conns c).sent <+: (t.conns c).sent)
    (hT : t.NoMagicSent host) : s.NoMagicSent host := by
  intro n hmagic
  apply hT n
  have htake := (hsent (.client n)).take 4
  rw [hmagic] at htake
  apply (htake.eq_of_length_le _).symm
  rw [length_sendScalar]
  exact List.length_take_le 4 _

/-- What `handle_preinit` takes for the magic are the bytes that the server has sent. -/
theorem take_of_findsMagic (hfound : s.FindsMagic host unset h) :
    ((s.conns h.socket).inbox).take 4 = sendScalar host initMagic := by
  rcases hfound with ⟨hresult, hvalue⟩
  have hlen : 4 ≤ ((s.conns h.socket).inbox).length := by
    simp only [recvScalar, ReadFunction.length_read_fst] at hresult
    change min 4 ((s.conns h.socket).inbox).length = 4 at hresult
    omega
  have htake : (((s.conns h.socket).inbox).take 4).length = 4 := List.length_take_of_le hlen
  rw [(recvScalar_of_header host .ofList unset hlen).1] at hvalue
  rw [sendScalar, reorder_bytes, ← hvalue]
  exact (bytes_value .bigEndian htake).symm

theorem Fresh.ownMagic (hF : s.Fresh) (hS : s.Handshake) (hsent : s.NoMagicSent host) :
    OwnMagic host s e := by
  rintro unset fails h n rfl hh hn hfound
  have hmem : h ∈ s.handlers := List.mem_append_right _ (List.mem_of_mem_head? hh.next)
  rcases hS.before hh.running hmem (.inr hh.handler) with
    ⟨first, others, hlist, -, hsocket, hothers⟩
  have hcreated : (s.conns h.socket).created = 0 := by
    rw [hlist] at hmem
    rcases List.mem_cons.mp hmem with rfl | hmem
    · rw [hn] at hsocket
      cases hsocket
    · exact (hothers h hmem).2
  have htake := take_of_findsMagic hfound
  rw [hn] at htake hcreated
  rw [(hF n hcreated).inbox] at htake
  exact hsent n htake

/-- A turn takes nothing from a client that has no session before. -/
theorem kept_call (hS : s.Handshake) (hrunning : s.loop = .running)
    (hmagic : ∀ n, h.socket = .client n → h.handler = .handlePreinit →
      ¬ s.FindsMagic host unset h)
    (hpending : s.pending = h :: rest) (hs : s.call host code unset fails h rest = some t) {n : ℕ}
    (hn : (s.conns (.client n)).created = 0) :
    (t.conns (.client n)).inbox = (s.conns (.client n)).inbox ∧
      (t.conns (.client n)).log = (s.conns (.client n)).log := by
  have hmem := mem_handlers_of_pending hpending
  simp only [call] at hs
  split at hs
  · rcases acceptPreinit_cases hs with rfl | ⟨d, more, -, rfl⟩ <;> exact ⟨rfl, rfl⟩
  · rcases acceptRegular_cases hs with rfl | ⟨d, more, -, rfl⟩
    · exact ⟨rfl, rfl⟩
    · exact ⟨field_update Connection.inbox (by rfl) _, field_update Connection.log (by rfl) _⟩
  · rename_i hfun
    rcases handlePreinit_cases hs with ⟨rfl, -⟩ | ⟨first, others, inbox, hfound, -, -, -, hconns, -⟩
    · exact ⟨rfl, rfl⟩
    · have hne : Socket.client n ≠ h.socket := by
        rw [hS.aux_of_magic hrunning hmem hfun (fun n hn => hmagic n hn hfun) hfound]
        simp
      rw [hconns, switchedConns, if_neg hne]
      split <;> exact ⟨rfl, rfl⟩
  · rename_i hfun
    have hne : Socket.client n ≠ h.socket := by
      intro heq
      have hone := (hS.session_of_mem hmem hfun).2
      rw [← heq, hn] at hone
      cases hone
    rcases handleSession_cases hs with ⟨outcome, rfl, -⟩
    rw [served_conns, Function.update_of_ne hne]
    exact ⟨rfl, rfl⟩
  · rename_i hfun
    have hne : Socket.client n ≠ h.socket := by
      rw [hS.aux_of_mem hmem hfun]
      simp
    rcases handleAux_cases hpending hs with ⟨hconns, -⟩
    rw [hconns, Function.update_of_ne hne]
    exact ⟨rfl, rfl⟩

theorem keepsBytes_step (hF : s.Fresh) (hS : s.Handshake) (haux : (s.conns .aux).closed = false)
    (hmagic : OwnMagic host s e) (hs : s.step host code e = some t) : KeepsBytes s e t := by
  intro n hn
  have huntouched := hF n hn
  by_cases hserve : ∃ unset fails, e = .serve unset fails
  · rcases hserve with ⟨unset, fails, rfl⟩
    rcases serve_cases hs with ⟨hrunning, h, rest, hpending, ⟨-, rfl⟩ | ⟨hserves, hcall⟩⟩
    · exact ⟨huntouched.inbox, huntouched.log⟩
    · have hkept := kept_call hS hrunning
        (fun n hn hfun => hmagic unset fails h n rfl (hfun ▸ hserves) hn) hpending hcall hn
      rw [hkept.1, hkept.2, sent_call hpending hcall]
      exact ⟨huntouched.inbox, huntouched.log⟩
  · have hbetween := between_step haux hs fun unset fails he => hserve ⟨unset, fails, he⟩
    have hlater := (hbetween.evolves (.client n)).untouched huntouched
    exact ⟨hlater.inbox, hlater.log⟩

theorem fresh_step (haux : (s.conns .aux).closed = false) (hkept : KeepsBytes s e t)
    (hs : s.step host code e = some t) : t.Fresh := by
  intro n hn
  have hbefore := Nat.le_zero.mp (hn ▸ created_le_step haux hs (.client n))
  exact ⟨hn, (hkept n hbefore).2, (hkept n hbefore).1⟩

/-! ## The acceptor -/

theorem Headed.append (hH : s.Headed) {new : List Handler}
    (hlist : t.handlers = s.handlers ++ new) :
    t.Headed := by
  rcases hH with ⟨first, others, hfirst, hhead⟩
  exact ⟨first, others ++ new, by rw [hlist, hfirst, List.cons_append], hhead⟩

theorem Headed.congr (hH : s.Headed) (hlist : t.handlers = s.handlers) : t.Headed := by
  have hnil : t.handlers = s.handlers ++ [] := by rw [hlist, List.append_nil]
  exact hH.append hnil

/-- The acceptor keeps its place, unless its id is received. -/
theorem headed_call (hH : s.Headed) (hpending : s.pending = h :: rest)
    (haux : h.handler = .handleAux → 0 < (s.receivedId host unset h).result ∧
      (s.receivedId host unset h).value ≠ 100)
    (hs : s.call host code unset fails h rest = some t) : t.Headed := by
  have hlist := handlers_of_pending hpending
  simp only [call] at hs
  split at hs
  · rcases acceptPreinit_cases hs with rfl | ⟨c, more, -, rfl⟩
    · exact hH.congr rfl
    · apply hH.append
      rw [handlers_proceed, hlist, List.append_assoc, List.cons_append]
  · rcases acceptRegular_cases hs with rfl | ⟨c, more, -, rfl⟩
    · exact hH.congr rfl
    · apply hH.append
      rw [handlers_proceed, hlist, List.append_assoc, List.cons_append]
      rfl
  · rcases handlePreinit_cases hs with ⟨rfl, -⟩ | ⟨first, others, inbox, -, -, hfirst, hswitched, -⟩
    · exact hH.congr (by rw [handlers_proceed, hlist])
    · rcases hH with ⟨first', others', hfirst', hid, hsocket, -⟩
      rw [hfirst, List.cons.injEq] at hfirst'
      rcases hfirst' with ⟨rfl, -⟩
      exact ⟨_, _, hswitched, hid, hsocket, .inr rfl⟩
  · rename_i hfun
    rcases handleSession_cases hs with ⟨outcome, rfl, hcases⟩
    rcases hcases with ⟨p, -, -, hstatus⟩ | ⟨-, -, ⟨-, -, -, hstatus⟩ | ⟨-, -, hstatus⟩⟩
    · exact hH.congr (served_proceed hpending hstatus)
    · -- the handler that leaves is not the acceptor
      rcases hH with ⟨first, others, hfirst, hid, hsocket, haccepts⟩
      rw [hlist] at hfirst
      cases hvisited : s.visited with
      | nil =>
          rw [hvisited, List.nil_append, List.cons.injEq] at hfirst
          rcases hfirst with ⟨rfl, -⟩
          rw [hfun] at haccepts
          simp at haccepts
      | cons x xs =>
          rw [hvisited, List.cons_append, List.cons.injEq] at hfirst
          rcases hfirst with ⟨rfl, -⟩
          refine ⟨x, xs ++ rest, ?_, hid, hsocket, haccepts⟩
          rw [(served_removeThis hstatus).1, hvisited, List.cons_append]
    · exact hH.congr (served_proceed hpending hstatus)
  · rename_i hfun
    rcases hH with ⟨first, others, hfirst, hid, hhead⟩
    refine ⟨first, others.eraseP (·.id = (s.receivedId host unset h).value), ?_, hid, hhead⟩
    rw [handleAux_eraseP hpending (haux hfun).1 hs, hfirst, List.eraseP_cons_of_neg]
    rw [hid]
    simpa using Ne.symm (haux hfun).2

/-- The sockets of the handlers tell them apart, so one at most is on `handle_aux`. -/
theorem countP_handleAux_le (hI : s.InOrder fun _ => False) (hS : s.Handshake) :
    s.handlers.countP (·.handler = .handleAux) ≤ 1 := by
  have hsub : ((s.handlers.filter (·.handler = .handleAux)).map Handler.socket).Nodup :=
    (List.nodup_append'.mp hI.intact.nodup).1.sublist (List.filter_sublist.map _)
  have hall : (s.handlers.filter (·.handler = .handleAux)).map Handler.socket =
      List.replicate (s.handlers.countP (·.handler = .handleAux)) .aux := by
    rw [List.eq_replicate_iff, List.length_map, List.countP_eq_length_filter]
    refine ⟨rfl, fun c hc => ?_⟩
    rcases List.mem_map.mp hc with ⟨h, hh, rfl⟩
    simp only [List.mem_filter, decide_eq_true_eq] at hh
    exact hS.aux_of_mem hh.1 hh.2
  rw [hall] at hsub
  exact List.nodup_replicate.mp hsub

theorem Switched.assigned (hS : s.Switched) : s.Assigned := by
  refine ⟨fun h hh n hn => ?_, fun h hh => ?_⟩
  · rcases hS.2 h hh with ⟨-, hsocket⟩ | ⟨-, hsocket⟩ | ⟨hfun, -, hone⟩
    · rw [hn] at hsocket
      cases hsocket
    · rw [hn] at hsocket
      cases hsocket
    · exact ⟨hfun, hone⟩
  · rcases hS.2 h hh with ⟨hfun, -⟩ | ⟨hfun, -⟩ | ⟨hfun, -⟩ <;> simp [hfun]

/-! ## Runs -/

/-- What holds in every state, whatever the order of connections. -/
structure Started (s : Server) : Prop where
  order : s.InOrder fun _ => False
  fresh : s.Fresh
  handshake : s.Handshake

theorem started_init (host : ByteOrder) (early : ℕ) : (init host early).Started :=
  ⟨inOrder_init _ host early, fun _ hn => ⟨hn, rfl, rfl⟩, handshake_init host early⟩

theorem started_step (hS : s.Started) (hsent : s.NoMagicSent host)
    (hs : s.step host code e = some t) : t.Started ∧ KeepsBytes s e t := by
  have haux := hS.order.intact.auxOpen
  have hmagic := hS.fresh.ownMagic (e := e) hS.handshake hsent
  have hkept := keepsBytes_step hS.fresh hS.handshake haux hmagic hs
  exact ⟨⟨unwatched_step hS.order hs, fresh_step haux hkept hs,
    handshake_step hS.handshake hS.order hmagic hs⟩, hkept⟩

theorem noMagicSent_of_run {events : List Event} (hI : s.InOrder fun _ => False)
    (hrun : run (Server.step host code) s events = some t) (hT : t.NoMagicSent host) :
    s.NoMagicSent host := by
  induction events generalizing s with
  | nil =>
      cases hrun
      exact hT
  | cons e events ih =>
      rcases run_cons_eq_some.mp hrun with ⟨m, hm, hrest⟩
      exact noMagicSent_of_prefix (sent_prefix_step hI.intact.auxOpen hm)
        (ih (unwatched_step hI hm) hrest)

/-- What no client has sent in the end none has sent before. -/
theorem along_noMagicSent {events : List Event} (hI : s.InOrder fun _ => False)
    (hrun : run (Server.step host code) s events = some t) (hT : t.NoMagicSent host) :
    Along (Server.step host code) (fun s _ => s.NoMagicSent host) s events := by
  rw [along_iff_forall_split]
  intro pre e post m hsplit hpre
  rw [hsplit] at hrun
  rcases run_append_eq_some.mp hrun with ⟨m', hpre', hpost⟩
  cases hpre.symm.trans hpre'
  exact noMagicSent_of_run
    (run_invariant_of_step _ (fun _ _ _ hI hs => unwatched_step hI hs) hI hpre)
    hpost hT

end Server

namespace Tracked

variable {host : ByteOrder} {code : Surroundings} {s t : Tracked} {e : Event}

/-- The acceptor keeps its place as long as its id is not on its way. -/
theorem headed_step (hI : s.Inv host) (hS : s.server.Started) (hH : s.server.Headed)
    (hflight : ∀ v ∈ s.flight, v.1 ≠ 100) (hs : s.step host code e = some t) :
    t.server.Headed := by
  rcases step_server hs with ⟨hstep, -⟩
  by_cases hserve : ∃ unset fails, e = .serve unset fails
  · rcases hserve with ⟨unset, fails, rfl⟩
    rcases Server.serve_cases hstep with ⟨-, h, rest, hpending, ⟨-, hskip⟩ | ⟨hh, hcall⟩⟩
    · apply hH.congr
      rw [hskip, Server.handlers_proceed, ← Server.handlers_of_pending hpending]
    · apply Server.headed_call hH hpending _ hcall
      intro hfun
      have hmem := Server.mem_handlers_of_pending hpending
      have hsocket := hS.handshake.aux_of_mem hmem hfun
      have hserves : s.server.Serves .handleAux h := ⟨hh.running, hh.next, hfun, hh.ready⟩
      rw [Server.call, hfun] at hcall
      simp only [Server.handleAux, Option.ite_none_left_eq_some, hsocket,
        hI.order.intact.auxOpen] at hcall
      have hinbox := hI.aligned hS.handshake.aux
      cases hvalues : s.flight with
      | nil =>
          rw [hvalues] at hinbox
          simp [hinbox, Flight.bytes] at hcall
      | cons v flight =>
          have hreceived := receivedId_of_flight hI hserves hsocket hvalues unset
          rw [hreceived.2.1, hreceived.2.2]
          exact ⟨by decide, hflight v (by rw [hvalues]; exact List.mem_cons_self)⟩
  · exact hH.congr (Server.between_step hI.order.intact.auxOpen hstep fun unset fails he =>
      hserve ⟨unset, fails, he⟩).handlers

theorem flight_step (hflight : ∀ v ∈ s.flight, v.1 ≠ 100) (he : e ≠ .disconnect 100)
    (hs : s.step host code e = some t) : ∀ v ∈ t.flight, v.1 ≠ 100 := by
  rw [(step_server hs).2]
  have hnew : ∀ id c, id ≠ 100 → ∀ v ∈ s.flight ++ [(id, c)], v.1 ≠ 100 := by
    intro id c hid v hv
    rcases List.mem_append.mp hv with hold | hnew
    · exact hflight v hold
    · rw [List.mem_singleton.mp hnew]
      exact hid
  cases e with
  | disconnect id =>
      apply hnew
      rintro rfl
      exact he rfl
  | stop => exact hnew 0 none (by decide)
  | serve unset fails =>
      rw [Server.nextFlight]
      split
      · exact fun v hv => hflight v (List.mem_of_mem_tail hv)
      · exact hflight
  | connect => exact hflight
  | send n bytes => exact hflight
  | close n => exact hflight
  | select => exact hflight
  | selectFails => exact hflight

theorem headed_run {early : ℕ} {events : List Event}
    (hsent : Along (Server.step host code) (fun s _ => s.NoMagicSent host) (.init host early)
      events)
    (hids : .disconnect 100 ∉ events)
    (hrun : run (Tracked.step host code) (.init host early) events = some t) : t.server.Headed := by
  have hother : Along (Tracked.step host code) (fun _ e => e ≠ .disconnect 100)
      (.init host early) events := by
    apply along_of_forall
    rintro e he _ rfl
    exact hids he
  have hinv := run_invariant (fun s => s.Inv host ∧ s.server.Started ∧ s.server.Headed ∧
      ∀ v ∈ s.flight, v.1 ≠ 100) ?_ ?_ ((along_server hsent).and hother) hrun
  · exact hinv.2.2.1
  · intro s e t hI he hs
    exact ⟨inv_step hI.1 hs, (Server.started_step hI.2.1 he.1 (step_server hs).1).1,
      headed_step hI.1 hI.2.1 hI.2.2.1 hI.2.2.2 hs, flight_step hI.2.2.2 he.2 hs⟩
  · refine ⟨inv_init host early, Server.started_init host early, ?_, ?_⟩
    · exact ⟨_, [], rfl, rfl, rfl, .inl rfl⟩
    · simp [init, initMagic]

end Tracked

open Server in
/-- For every session code and every order in which connections are made, accepted, read and
closed, where no client sends the magic for the length of its first frame: the acceptor comes
first, unless a session calls `disconnect` under its id; one handler at most is on
`handle_aux`, and serves the connection of `connect_aux`, which gets no session; once that is
recognised, every client in the list has one session; and nothing is taken from a client
before it has one. -/
theorem start_up_keeps_connections (host : ByteOrder) (code : Surroundings) (early : ℕ)
    {events : List Event} {t : Server}
    (hrun : run (Server.step host code) (.init host early) events = some t)
    (hsent : t.NoMagicSent host) :
    (.disconnect 100 ∉ events → t.Headed) ∧
      t.handlers.countP (·.handler = .handleAux) ≤ 1 ∧
      (∀ h ∈ t.handlers, h.handler = .handleAux → h.socket = .aux) ∧
      (t.conns .aux).created = 0 ∧
      (∀ pre post m, events = pre ++ post →
        run (Server.step host code) (.init host early) pre = some m → m.Recognised → t.Assigned) ∧
      Through (Server.step host code) KeepsBytes (.init host early) events := by
  have hstart := started_init host early
  have halong : Along (Server.step host code) (fun s _ => s.NoMagicSent host) (.init host early)
      events := along_noMagicSent hstart.order hrun hsent
  have hkeeps : ∀ s e t, s.Started → s.NoMagicSent host → s.step host code e = some t →
      t.Started ∧ KeepsBytes s e t := fun s e t hS hsent hs => started_step hS hsent hs
  have hinv : ∀ {pre m}, Along (Server.step host code) (fun s _ => s.NoMagicSent host)
      (.init host early) pre → run (Server.step host code) (.init host early) pre = some m →
        m.Started := fun hpre hm =>
    run_invariant Started (fun s e t hS hsent hs => (hkeeps s e t hS hsent hs).1) hstart hpre hm
  have ht := hinv halong hrun
  refine ⟨?_, countP_handleAux_le ht.order ht.handshake, fun h hh => ht.handshake.aux_of_mem hh,
    ht.handshake.aux, ?_, through_of_along Started hkeeps hstart halong⟩
  · intro hids
    rcases Tracked.run_server (s := .init host early) hrun with ⟨u, hu, rfl⟩
    exact Tracked.headed_run halong hids hu
  · intro pre post m hsplit hpre hrecognised
    rw [hsplit] at halong hrun
    rcases along_append halong hpre with ⟨hbefore, hafter⟩
    have hm := hinv hbefore hpre
    rcases hrecognised with ⟨hrunning, h, hh, hfun⟩
    have hswitched := hm.handshake.after hrunning hh (by simp [hfun]) (by simp [hfun])
    rcases run_append_eq_some.mp hrun with ⟨m', hpre', hpost⟩
    cases hpre.symm.trans hpre'
    have hend := run_invariant (fun s => s.Started ∧ s.Switched) ?_ ⟨hm, hswitched⟩ hafter hpost
    · exact hend.2.assigned
    · intro s e t hS hsent hs
      exact ⟨(hkeeps s e t hS.1 hsent hs).1,
        switched_step hS.1.handshake hS.1.order hS.2 hs⟩

/-- One client connects before the server itself and one after it; both send a frame, and the
server gets as far as the first. -/
def earlyAndLate : List Event :=
  earlyClient [0, 0, 0, 1] ++ [.turn, .turn, .select, .turn, .turn, .turn, .connect, .send 0 [7],
    .send 1 [0, 0, 0, 0], .select, .turn, .turn, .turn]

theorem start_up_keeps_connections_two_clients :
    ∃ t, run (Server.step .littleEndian .quiet) (.init .littleEndian 1) earlyAndLate = some t ∧
      t.Headed ∧ (∀ h ∈ t.handlers, h.handler = .handleAux → h.socket = .aux) ∧
      (t.conns .aux).created = 0 ∧ t.Assigned ∧
      Through (Server.step .littleEndian .quiet) Server.KeepsBytes (.init .littleEndian 1)
        earlyAndLate ∧
      (t.conns (.client 0)).created = 1 ∧ (t.conns (.client 0)).log = [.message [7]] ∧
      (t.conns (.client 1)).created = 1 ∧ (t.conns (.client 1)).inbox = [0, 0, 0, 0] := by
  obtain ⟨t, hrun, hsent, hrecognised, hconns⟩ : ∃ t,
      run (Server.step .littleEndian .quiet) (.init .littleEndian 1) earlyAndLate = some t ∧
      t.NoMagicSent .littleEndian ∧ t.Recognised ∧
      (t.conns (.client 0)).created = 1 ∧ (t.conns (.client 0)).log = [.message [7]] ∧
      (t.conns (.client 1)).created = 1 ∧ (t.conns (.client 1)).inbox = [0, 0, 0, 0] := by
    refine ⟨_, rfl, fun n => ?_, ⟨rfl, _, List.mem_cons_self, rfl⟩, ?_⟩
    · rcases n with _ | _ | n
      · decide
      · decide
      · change [] ≠ sendScalar .littleEndian initMagic
        decide
    · decide
  obtain ⟨hheaded, -, haux, hnone, hassigned, hkeeps⟩ :=
    start_up_keeps_connections .littleEndian .quiet 1 hrun hsent
  exact ⟨t, hrun, hheaded (by decide), haux, hnone,
    hassigned earlyAndLate [] t (List.append_nil _).symm hrun hrecognised, hkeeps, hconns⟩

end CohesionIpc.Sockets
