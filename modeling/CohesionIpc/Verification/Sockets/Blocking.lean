import CohesionIpc.Verification.Sockets.Identifiers
import CohesionIpc.Verification.Sockets.StartUp
import CohesionIpc.Verification.Sockets.Turns

/-! What the loop can be waiting for inside a pass: the rest of a frame of one session. -/

namespace CohesionIpc.Sockets

open Transition ByteRepresentation

namespace Server

variable {host : ByteOrder} {code : Surroundings} {s t : Server} {e : Event} {unset : UInt32}
  {fails : Bool} {h : Handler} {rest : List Handler}

/-! ## What a turn leaves as it is -/

theorem readable_eq {c : Socket} (hc : c ≠ .listener) :
    s.readable c = true ↔ (s.conns c).inbox ≠ [] ∨ (s.conns c).closed := by
  cases c with
  | listener => exact absurd rfl hc
  | aux => simp [readable]
  | client n => simp [readable]

@[simp] theorem readable_listener : s.readable .listener = true ↔ s.backlog ≠ [] := by
  simp [readable]

/-- Only the connection of the handler is read. -/
theorem inbox_of_call (hpending : s.pending = h :: rest)
    (hs : s.call host code unset fails h rest = some t) {c : Socket} (hc : c ≠ h.socket) :
    (t.conns c).inbox = (s.conns c).inbox := by
  simp only [call] at hs
  split at hs
  · rcases acceptPreinit_cases hs with rfl | ⟨d, more, -, rfl⟩ <;> rfl
  · rcases acceptRegular_cases hs with rfl | ⟨d, more, -, rfl⟩
    · rfl
    · exact field_update Connection.inbox (by rfl) c
  · rcases handlePreinit_cases hs with ⟨rfl, -⟩ | ⟨first, others, inbox, -, -, -, -, hconns, -⟩
    · rfl
    · rw [hconns, switchedConns, if_neg hc]
      split <;> rfl
  · obtain ⟨outcome, rfl, -⟩ := handleSession_cases hs
    rw [served_conns, Function.update_of_ne hc]
  · obtain ⟨hconns, -⟩ := handleAux_cases hpending hs
    rw [hconns, Function.update_of_ne hc]

theorem pending_handlePreinit (hpending : s.pending = h :: rest) (hrunning : t.loop = .running)
    (hs : s.handlePreinit host code unset h rest = some t) :
    t.pending.map Handler.socket = rest.map Handler.socket ∧ t.ready = s.ready := by
  simp only [handlePreinit, Option.ite_none_left_eq_some] at hs
  obtain ⟨-, hs⟩ := hs
  split at hs
  · split at hs
    · cases hs
    · rename_i first others hlist
      cases hs
      have hquiet : (assign code h others).2.2 = false := by
        by_contra hraised
        rw [Bool.not_eq_false] at hraised
        simp [hraised] at hrunning
      have hsockets : ({ first with handler := .acceptRegular } :: (assign code h others).1).map
          Handler.socket = (s.visited ++ h :: rest).map Handler.socket := by
        rw [List.map_cons, map_socket_assign, ← handlers_of_pending hpending, hlist, List.map_cons]
      refine ⟨?_, rfl⟩
      simp only [hquiet, Bool.false_eq_true, if_false]
      rw [List.map_drop, hsockets, ← List.map_drop]
      simp
  · cases hs
    exact ⟨rfl, rfl⟩

theorem pending_handleSession (hrunning : t.loop = .running)
    (hs : s.handleSession host code unset h rest = some t) :
    t.pending = rest ∧ t.ready = s.ready := by
  obtain ⟨outcome, rfl, -⟩ := handleSession_cases hs
  simp only [served] at hrunning ⊢
  split
  · exact ⟨rfl, rfl⟩
  · simp_all
  · split
    · simp_all
    · exact ⟨rfl, rfl⟩

theorem pending_handleAux (hs : s.handleAux host unset h rest = some t)
    (hrunning : t.loop = .running) : t.pending.Sublist rest ∧ t.ready = s.ready := by
  simp only [handleAux, Option.ite_none_left_eq_some] at hs
  obtain ⟨-, hs⟩ := hs
  split at hs
  · split at hs
    · cases hs
      exact ⟨List.Sublist.refl _, rfl⟩
    · split at hs
      · cases hs
        cases hrunning
      · cases hs
        exact ⟨List.eraseP_sublist, rfl⟩
  · cases hs
    cases hrunning

/-- The handlers that are still to come were to come before, or have been accepted. -/
theorem pending_call (hpending : s.pending = h :: rest) (hrunning : t.loop = .running)
    (hs : s.call host code unset fails h rest = some t) :
    (∀ c ∈ t.pending.map Handler.socket, c ∈ rest.map Handler.socket ∨ c ∈ s.backlog) ∧
      t.ready = s.ready := by
  simp only [call] at hs
  split at hs
  · rcases acceptPreinit_cases hs with rfl | ⟨d, more, hbacklog, rfl⟩
    · cases hrunning
    · refine ⟨?_, rfl⟩
      intro c hc
      rw [proceed, List.map_append, List.mem_append] at hc
      rw [hbacklog]
      exact hc.imp id fun h => List.mem_cons.mpr (.inl (List.mem_singleton.mp h))
  · rcases acceptRegular_cases hs with rfl | ⟨d, more, hbacklog, rfl⟩
    · cases hrunning
    · refine ⟨?_, rfl⟩
      intro c hc
      rw [proceed, List.map_append, List.mem_append] at hc
      rw [hbacklog]
      exact hc.imp id fun h => List.mem_cons.mpr (.inl (List.mem_singleton.mp h))
  · obtain ⟨hsockets, hready⟩ := pending_handlePreinit hpending hrunning hs
    exact ⟨fun c hc => .inl (hsockets ▸ hc), hready⟩
  · obtain ⟨hrest, hready⟩ := pending_handleSession hrunning hs
    exact ⟨fun c hc => .inl (hrest ▸ hc), hready⟩
  · obtain ⟨hsub, hready⟩ := pending_handleAux hs hrunning
    exact ⟨fun c hc => .inl ((hsub.map _).subset hc), hready⟩

theorem backlog_call (hpending : s.pending = h :: rest)
    (hs : s.call host code unset fails h rest = some t) :
    t.clients = s.clients ∧ (t.backlog = s.backlog ∨
      ((h.handler = .acceptPreinit ∨ h.handler = .acceptRegular) ∧
        t.backlog = s.backlog.tail)) := by
  simp only [call] at hs
  split at hs
  · rename_i hfun
    rcases acceptPreinit_cases hs with rfl | ⟨d, more, hbacklog, rfl⟩
    · exact ⟨rfl, .inl rfl⟩
    · exact ⟨rfl, .inr ⟨.inl hfun, by rw [hbacklog]; rfl⟩⟩
  · rename_i hfun
    rcases acceptRegular_cases hs with rfl | ⟨d, more, hbacklog, rfl⟩
    · exact ⟨rfl, .inl rfl⟩
    · exact ⟨rfl, .inr ⟨.inr hfun, by rw [hbacklog]; rfl⟩⟩
  · rcases handlePreinit_cases hs with ⟨rfl, -⟩ | ⟨first, others, inbox, -, -, -, -, -, hclients,
      hbacklog, -⟩
    · exact ⟨rfl, .inl rfl⟩
    · exact ⟨hclients, .inl hbacklog⟩
  · obtain ⟨outcome, rfl, -⟩ := handleSession_cases hs
    exact ⟨served_clients _ _ _ _ _, .inl (served_backlog _ _ _ _ _)⟩
  · obtain ⟨-, hclients, hbacklog, -⟩ := handleAux_cases hpending hs
    exact ⟨hclients, .inl hbacklog⟩

/-! ## What `select` has reported -/

/-- What `select` has reported of a handler whose turn has not come yet still holds. -/
structure Reported (s : Server) : Prop where
  readable : ∀ h ∈ s.pending, h.socket ∈ s.ready → s.readable h.socket = true
  accepted : ∀ c ∈ s.ready, c ∉ s.backlog ∧ ∀ n, c = .client n → n < s.clients

theorem readable_mono (hbacklog : s.backlog ≠ [] → t.backlog ≠ []) {c : Socket}
    (hinbox : (s.conns c).inbox ≠ [] → (t.conns c).inbox ≠ [])
    (hclosed : (s.conns c).closed → (t.conns c).closed) (h : s.readable c = true) :
    t.readable c = true := by
  by_cases hc : c = .listener
  · rw [hc, readable_listener] at h ⊢
    exact hbacklog h
  · rw [readable_eq hc] at h ⊢
    exact h.imp hinbox hclosed

theorem reported_init (host : ByteOrder) (early : ℕ) : (init host early).Reported :=
  ⟨fun _ hh => absurd hh List.not_mem_nil, fun _ hc => absurd hc List.not_mem_nil⟩

/-- The acceptor is the only handler of the listening socket. -/
theorem acceptor_socket (hS : s.Handshake) (hrunning : s.loop = .running) (hmem : h ∈ s.handlers)
    (hfun : h.handler = .acceptPreinit ∨ h.handler = .acceptRegular) : h.socket = .listener := by
  rcases hfun with hfun | hfun
  · obtain ⟨first, others, hlist, -, hsocket, hothers⟩ := hS.before hrunning hmem (.inl hfun)
    rw [hlist] at hmem
    rcases List.mem_cons.mp hmem with rfl | hmem
    · exact hsocket
    · rw [(hothers h hmem).1.1] at hfun
      cases hfun
  · have hsettled := hS.settled_of_mem hmem (by simp [hfun]) (by simp [hfun])
    rcases hsettled with ⟨-, hsocket⟩ | ⟨hfun', -⟩ | ⟨hfun', -⟩
    · exact hsocket
    · rw [hfun] at hfun'
      cases hfun'
    · rw [hfun] at hfun'
      cases hfun'

/-- Of the others nothing is read in the turn of a handler. -/
theorem reported_call (hR : s.Reported) (hI : s.InOrder fun _ => False) (hS : s.Handshake)
    (hsrunning : s.loop = .running) (hpending : s.pending = h :: rest)
    (htrunning : t.loop = .running) (hs : s.call host code unset fails h rest = some t) :
    t.Reported := by
  obtain ⟨hcome, hready⟩ := pending_call hpending htrunning hs
  obtain ⟨hclients, hbacklog⟩ := backlog_call hpending hs
  have hsub : ∀ c ∈ t.backlog, c ∈ s.backlog := by
    intro c hc
    rcases hbacklog with heq | ⟨-, heq⟩
    · exact heq ▸ hc
    · exact List.mem_of_mem_tail (heq ▸ hc)
  have hnodup := (List.nodup_append'.mp hI.intact.nodup).1
  rw [handlers_of_pending hpending, List.map_append, List.map_cons] at hnodup
  have hother : h.socket ∉ rest.map Handler.socket :=
    (List.nodup_cons.mp (List.nodup_append'.mp hnodup).2.1).1
  refine ⟨?_, ?_⟩
  · intro h' hh' hc
    rw [hready] at hc
    have hrest : h'.socket ∈ rest.map Handler.socket :=
      (hcome _ (List.mem_map_of_mem hh')).resolve_right (hR.accepted _ hc).1
    have hne : h'.socket ≠ h.socket := fun heq => hother (heq ▸ hrest)
    obtain ⟨h₀, hh₀, hsame⟩ := List.mem_map.mp hrest
    have hbefore : s.readable h'.socket = true := by
      rw [← hsame] at hc ⊢
      exact hR.readable h₀ (hpending ▸ List.mem_cons_of_mem _ hh₀) hc
    by_cases hlistener : h'.socket = .listener
    · rcases hbacklog with heq | ⟨hfun, -⟩
      · rw [hlistener, readable_listener] at hbefore ⊢
        rwa [heq]
      · exfalso
        apply hne
        rw [hlistener]
        exact (acceptor_socket hS hsrunning (mem_handlers_of_pending hpending) hfun).symm
    · rw [readable_eq hlistener] at hbefore ⊢
      rwa [inbox_of_call hpending hs hne, (stream_of_call hpending hs _).1]
  · intro c hc
    rw [hready] at hc
    obtain ⟨hnot, hknown⟩ := hR.accepted c hc
    exact ⟨fun h => hnot (hsub c h), fun n hn => hclients ▸ hknown n hn⟩

theorem Reported.between (hR : s.Reported) (hpending : t.pending = s.pending)
    (hready : t.ready = s.ready) (hclients : s.clients ≤ t.clients)
    (hbacklog : ∃ new, t.backlog = s.backlog ++ new ∧ ∀ c ∈ new, c = .client s.clients)
    (hinbox : ∀ c, (s.conns c).inbox ≠ [] → (t.conns c).inbox ≠ [])
    (hclosed : ∀ c, (s.conns c).closed → (t.conns c).closed) : t.Reported := by
  obtain ⟨new, hbacklog, hnew⟩ := hbacklog
  refine ⟨?_, ?_⟩
  · intro h hh hc
    rw [hpending] at hh
    rw [hready] at hc
    apply readable_mono _ (hinbox _) (hclosed _) (hR.readable h hh hc)
    simp only [hbacklog, ne_eq, List.append_eq_nil_iff, not_and_or]
    exact .inl
  · intro c hc
    rw [hready] at hc
    obtain ⟨hnot, hknown⟩ := hR.accepted c hc
    refine ⟨?_, fun n hn => (hknown n hn).trans_le hclients⟩
    rw [hbacklog]
    intro hmem
    rcases List.mem_append.mp hmem with hmem | hmem
    · exact hnot hmem
    · exact absurd (hknown s.clients (hnew c hmem)) (lt_irrefl _)

theorem Reported.onConnection (hR : s.Reported) {c : Socket} {f : Connection → Connection}
    (hinbox : (s.conns c).inbox ≠ [] → (f (s.conns c)).inbox ≠ [])
    (hclosed : (s.conns c).closed → (f (s.conns c)).closed) : (s.onConnection c f).Reported := by
  refine hR.between rfl rfl le_rfl ⟨[], by simp [Server.onConnection], by simp⟩ ?_ ?_
  · exact fun d h => of_update (P := fun k => k.inbox ≠ []) hinbox h
  · exact fun d h => of_update (P := fun k => k.closed = true) hclosed h

theorem inbox_receive {k : Connection} (bytes : List UInt8) (h : k.inbox ≠ []) :
    (k.receive bytes).inbox ≠ [] := by
  simp [Connection.receive, h]

theorem reported_step (hR : s.Reported) (hI : s.InOrder fun _ => False) (hS : s.Handshake)
    (hs : s.step host code e = some t) (htrunning : t.loop = .running) : t.Reported := by
  cases e with
  | connect =>
      cases hs
      exact hR.between rfl rfl (Nat.le_succ _) ⟨[.client s.clients], rfl, by simp⟩
        (fun _ h => h) fun _ h => h
  | send n bytes =>
      simp only [step, Option.ite_none_right_eq_some, Option.some.injEq] at hs
      obtain ⟨-, rfl⟩ := hs
      exact hR.onConnection (inbox_receive bytes) id
  | close n =>
      simp only [step, Option.ite_none_right_eq_some, Option.some.injEq] at hs
      obtain ⟨-, rfl⟩ := hs
      exact hR.onConnection id fun _ => rfl
  | disconnect id =>
      simp only [step, Option.ite_none_right_eq_some, Option.some.injEq] at hs
      obtain ⟨-, rfl⟩ := hs
      exact hR.onConnection (inbox_receive _) fun h => h
  | stop =>
      simp only [step, Option.ite_none_left_eq_some, Option.some.injEq] at hs
      obtain ⟨-, rfl⟩ := hs
      have hsent := hR.onConnection (c := .aux) (f := (·.receive (sendScalar host 0)))
        (inbox_receive _) id
      exact ⟨hsent.readable, hsent.accepted⟩
  | select =>
      simp only [step, Option.ite_none_right_eq_some, Option.some.injEq] at hs
      obtain ⟨⟨-, hpending, -⟩, rfl⟩ := hs
      refine ⟨fun h _ hc => (List.mem_filter.mp hc).2, ?_⟩
      intro c hc
      have hmem : c ∈ s.handlers.map Handler.socket := by
        rw [handlers, hpending, List.append_nil]
        exact (List.mem_filter.mp hc).1
      refine ⟨(List.nodup_append'.mp hI.intact.nodup).2.2 hmem, ?_⟩
      rintro n rfl
      exact hI.intact.known n (List.mem_append_left _ hmem)
  | selectFails =>
      simp only [step, Option.ite_none_right_eq_some, Option.some.injEq] at hs
      obtain ⟨-, rfl⟩ := hs
      cases htrunning
  | serve unset fails =>
      obtain ⟨hrunning, h, rest, hpending, ⟨-, rfl⟩ | ⟨-, hcall⟩⟩ := serve_cases hs
      · exact ⟨fun h' hh' => hR.readable h' (hpending ▸ List.mem_cons_of_mem _ hh'), hR.accepted⟩
      · exact reported_call hR hI hS hrunning hpending htrunning hcall

/-! ## The own connection -/

/-- The own connection waits to be accepted, or one of the handlers serves it. -/
def AuxPresent (s : Server) : Prop := .aux ∈ s.handlers.map Handler.socket ++ s.backlog

/-- Nothing has been recognised yet. -/
def Waiting (s : Server) : Prop := ∃ h ∈ s.handlers, h.handler = .acceptPreinit

theorem auxPresent_init (host : ByteOrder) (early : ℕ) : (init host early).AuxPresent := by
  simp [AuxPresent, init, handlers]

/-- The handler that receives an id stays, or the loop ends. -/
theorem mem_of_handleAux (hs : s.handleAux host unset h rest = some t)
    (hrunning : t.loop = .running) : h ∈ t.handlers := by
  simp only [handleAux, Option.ite_none_left_eq_some] at hs
  obtain ⟨-, hs⟩ := hs
  split at hs
  · split at hs
    · cases hs
      rw [handlers_proceed]
      exact List.mem_append_right _ List.mem_cons_self
    · split at hs
      · cases hs
        cases hrunning
      · cases hs
        rw [handlers_proceed]
        exact List.mem_append_right _ List.mem_cons_self
  · cases hs
    cases hrunning

theorem auxPresent_call (hA : s.AuxPresent) (hS : s.Handshake) (hpending : s.pending = h :: rest)
    (hrunning : t.loop = .running) (hs : s.call host code unset fails h rest = some t) :
    t.AuxPresent := by
  have hlist := handlers_of_pending hpending
  have hmem := mem_handlers_of_pending hpending
  simp only [call] at hs
  split at hs
  · rcases acceptPreinit_cases hs with rfl | ⟨c, more, hbacklog, rfl⟩
    · cases hrunning
    · rw [AuxPresent, hlist, hbacklog] at hA
      rw [AuxPresent, handlers_proceed]
      simpa [proceed, or_assoc] using hA
  · rcases acceptRegular_cases hs with rfl | ⟨c, more, hbacklog, rfl⟩
    · cases hrunning
    · rw [AuxPresent, hlist, hbacklog] at hA
      rw [AuxPresent, handlers_proceed]
      simpa [proceed, onConnection, or_assoc] using hA
  · rcases handlePreinit_cases hs with ⟨rfl, -⟩ |
      ⟨first, others, inbox, -, -, hfirst, hswitched, -, -, hbacklog, -⟩
    · rw [AuxPresent, hlist] at hA
      rw [AuxPresent, handlers_proceed]
      exact hA
    · rw [AuxPresent, hfirst] at hA
      rw [AuxPresent, hswitched, hbacklog, List.map_cons, map_socket_assign]
      exact hA
  · rename_i hfun
    obtain ⟨n, hn⟩ := (hS.session_of_mem hmem hfun).1
    obtain ⟨outcome, rfl, hcases⟩ := handleSession_cases hs
    rw [AuxPresent, served_backlog]
    rcases hcases with ⟨p, -, -, hstatus⟩ | ⟨-, -, ⟨-, -, -, hstatus⟩ | ⟨-, -, hstatus⟩⟩
    · rw [served_proceed hpending hstatus]
      exact hA
    · rw [(served_removeThis hstatus).1]
      rw [AuxPresent, hlist] at hA
      simpa [hn] using hA
    · rw [served_proceed hpending hstatus]
      exact hA
  · rename_i hfun
    rw [AuxPresent, ← hS.aux_of_mem hmem hfun]
    exact List.mem_append_left _ (List.mem_map_of_mem (mem_of_handleAux hs hrunning))

theorem backlog_subset (hs : s.step host code e = some t)
    (hserve : ∀ unset fails, e ≠ .serve unset fails) : ∀ c ∈ s.backlog, c ∈ t.backlog := by
  intro c hc
  cases e with
  | serve unset fails => exact absurd rfl (hserve unset fails)
  | connect =>
      cases hs
      exact List.mem_append_left _ hc
  | stop =>
      simp only [step, Option.ite_none_left_eq_some, Option.some.injEq] at hs
      obtain ⟨-, rfl⟩ := hs
      exact hc
  | _ =>
      simp only [step, Option.ite_none_right_eq_some, Option.some.injEq] at hs
      obtain ⟨-, rfl⟩ := hs
      exact hc

theorem auxPresent_step (hA : s.AuxPresent) (hS : s.Handshake)
    (haux : (s.conns .aux).closed = false) (hs : s.step host code e = some t)
    (hrunning : t.loop = .running) : t.AuxPresent := by
  by_cases hserve : ∃ unset fails, e = .serve unset fails
  · obtain ⟨unset, fails, rfl⟩ := hserve
    obtain ⟨-, h, rest, hpending, ⟨-, rfl⟩ | ⟨-, hcall⟩⟩ := serve_cases hs
    · rw [AuxPresent, handlers_of_pending hpending] at hA
      rw [AuxPresent, handlers_proceed]
      exact hA
    · exact auxPresent_call hA hS hpending hrunning hcall
  · have hother : ∀ unset fails, e ≠ .serve unset fails := fun unset fails he =>
      hserve ⟨unset, fails, he⟩
    rw [AuxPresent, (between_step haux hs hother).handlers]
    rw [AuxPresent] at hA
    rcases List.mem_append.mp hA with hmem | hmem
    · exact List.mem_append_left _ hmem
    · exact List.mem_append_right _ (backlog_subset hs hother _ hmem)

/-- While the loop runs, either nothing has been recognised, or all handlers are switched. -/
theorem Handshake.switched_of_not_waiting (hS : s.Handshake) (hrunning : s.loop = .running)
    (hwaiting : ¬ s.Waiting) : s.Switched := by
  rcases hS.stage with ⟨first, others, hlist, hfun, -⟩ | hswitched | ⟨-, hraised, -⟩
  · exact absurd ⟨first, by rw [hlist]; exact List.mem_cons_self, hfun⟩ hwaiting
  · exact hswitched
  · rw [hrunning] at hraised
    cases hraised

theorem Switched.not_waiting (hS : s.Switched) : ¬ s.Waiting := by
  rintro ⟨h, hh, hfun⟩
  exact (hS.assigned.preinit h hh).1 hfun

end Server

namespace Tracked

variable {host : ByteOrder} {code : Surroundings} {s t : Tracked} {e : Event}

/-- The magic is the first value to be received. -/
def MagicFirst (s : Tracked) : Prop :=
  s.server.Waiting → s.flight.head? = some (initMagic, none)

theorem not_waiting_of_magic {s t : Server} {unset : UInt32} {fails : Bool} {h : Handler}
    {rest : List Handler} (hT : t.Handshake) (hrunning : t.loop = .running)
    (hfun : h.handler = .handlePreinit) (hfound : s.FindsMagic host unset h)
    (hs : s.call host code unset fails h rest = some t) : ¬ t.Waiting := by
  rintro ⟨h', hh', hwaits⟩
  rw [Server.call, hfun] at hs
  rcases Server.handlePreinit_cases hs with ⟨-, hnot⟩ | ⟨first, others, inbox, -, -, -, hlist, -⟩
  · exact hnot hfound
  · obtain ⟨first', others', hlist', hfirst, -⟩ := hT.before hrunning hh' (.inl hwaits)
    rw [hlist] at hlist'
    rw [← (List.cons.inj hlist').1] at hfirst
    cases hfirst

theorem magicFirst_step (hM : s.MagicFirst) (hS : s.server.Started)
    (hT : t.server.Handshake) (hs : s.step host code e = some t)
    (hrunning : t.server.loop = .running) : t.MagicFirst := by
  intro hwaiting
  obtain ⟨hstep, hflight⟩ := step_server hs
  have hsrunning : s.server.loop = .running := running_of_step hstep hrunning
  have hbefore : s.server.Waiting := by
    by_contra hnot
    have hswitched := hS.handshake.switched_of_not_waiting hsrunning hnot
    exact (Server.switched_step hS.handshake hS.order hswitched hstep).not_waiting hwaiting
  have hhead := hM hbefore
  rw [hflight]
  cases e with
  | serve unset fails =>
      have htakes : s.server.takes host unset = false := by
        obtain ⟨-, h, rest, hpending, ⟨hready, -⟩ | ⟨hserves, hcall⟩⟩ := Server.serve_cases hstep
        · simp [Server.takes, hpending, hready]
        · rw [Bool.eq_false_iff]
          intro htakes
          rcases ((Server.takes_of_serves hserves).mp htakes).2 with hfun | ⟨hfun, hfound⟩
          · have hmem := Server.mem_handlers_of_pending hpending
            exact (hS.handshake.after hsrunning hmem (by simp [hfun])
              (by simp [hfun])).not_waiting hbefore
          · exact not_waiting_of_magic hT hrunning hfun hfound hcall hwaiting
      rw [Server.nextFlight, htakes]
      exact hhead
  | disconnect id =>
      rw [Server.nextFlight, List.head?_append, hhead]
      rfl
  | stop =>
      rw [Server.nextFlight, List.head?_append, hhead]
      rfl
  | _ => exact hhead

/-- What the turns of the loop may rely on as long as it runs. -/
structure Watched (host : ByteOrder) (s : Tracked) : Prop where
  inv : s.Inv host
  started : s.server.Started
  reported : s.server.loop = .running → s.server.Reported
  aux : s.server.loop = .running → s.server.AuxPresent
  magic : s.server.loop = .running → s.MagicFirst

theorem watched_init (host : ByteOrder) (early : ℕ) : (init host early).Watched host :=
  ⟨inv_init host early, Server.started_init host early,
    fun _ => Server.reported_init host early, fun _ => Server.auxPresent_init host early,
    fun _ _ => rfl⟩

theorem watched_step (hW : s.Watched host) (hsent : s.server.NoMagicSent host)
    (hs : s.step host code e = some t) : t.Watched host := by
  have hstep := (step_server hs).1
  have hstarted := (Server.started_step hW.started hsent hstep).1
  have hopen := hW.started.order.intact.auxOpen
  refine ⟨inv_step hW.inv hs, hstarted, ?_, ?_, ?_⟩
  · intro hrunning
    exact Server.reported_step (hW.reported (running_of_step hstep hrunning)) hW.started.order
      hW.started.handshake hstep hrunning
  · intro hrunning
    exact Server.auxPresent_step (hW.aux (running_of_step hstep hrunning)) hW.started.handshake
      hopen hstep hrunning
  · intro hrunning
    exact magicFirst_step (hW.magic (running_of_step hstep hrunning)) hW.started
      hstarted.handshake hs hrunning

end Tracked

namespace Server

variable {host : ByteOrder} {code : Surroundings} {s t : Server} {unset : UInt32} {fails : Bool}
  {h : Handler} {rest : List Handler}

/-! ## When a turn waits -/

/-- `recv` in the turn of this session waits for the rest of a frame; or the frame is empty, nothing
has come behind it, and `recv` of no bytes waits. -/
structure Blocked (code : Surroundings) (s : Server) (h : Handler) : Prop where
  handler : h.handler = .handleSession
  ready : h.socket ∈ s.ready
  isOpen : (s.conns h.socket).closed = false
  incomplete : (framing .bigEndian).next? (s.conns h.socket).inbox = none ∨
    code.emptyRecvWaits = true ∧
      (framing .bigEndian).next? (s.conns h.socket).inbox = some ([], [])

theorem Blocked.waits (h' : s.Blocked code h) :
    (s.conns h.socket).waits code.emptyRecvWaits = true :=
  Connection.waits_iff.mpr ⟨h'.isOpen, h'.incomplete⟩

theorem serve_of_blocked (hrunning : s.loop = .running) (hpending : s.pending = h :: rest)
    (hblocked : s.Blocked code h) : s.step host code (.serve unset fails) = none := by
  simp [step, serve, call, hrunning, hpending, hblocked.handler, hblocked.ready, handleSession,
    hblocked.waits]

theorem preinit_socket (hS : s.Handshake) (hrunning : s.loop = .running) (hmem : h ∈ s.handlers)
    (hfun : h.handler = .handlePreinit) : h.socket ≠ .listener := by
  obtain ⟨first, others, hlist, hfirst, -, hothers⟩ := hS.before hrunning hmem (.inr hfun)
  rw [hlist] at hmem
  rcases List.mem_cons.mp hmem with rfl | hmem
  · rw [hfun] at hfirst
    cases hfirst
  · exact (hothers h hmem).1.2

end Server

namespace Tracked

variable {host : ByteOrder} {code : Surroundings} {s : Tracked} {unset : UInt32} {fails : Bool}
  {h : Handler} {rest : List Handler}

/-- The values of the own connection come in whole. -/
theorem Watched.auxInbox (hW : s.Watched host) :
    (s.server.conns .aux).inbox = s.flight.bytes host :=
  hW.inv.aligned hW.started.handshake.aux

theorem Watched.enabled (hW : s.Watched host) (hrunning : s.server.loop = .running)
    (hpending : s.server.pending = h :: rest) (hblocked : ¬ s.server.Blocked code h)
    (unset : UInt32) (fails : Bool) :
    ∃ t, s.server.step host code (.serve unset fails) = some t := by
  have hmem := Server.mem_handlers_of_pending hpending
  have hS := hW.started.handshake
  rw [Server.step, if_pos hrunning, Server.serve, hpending]
  by_cases hready : h.socket ∈ s.server.ready
  · have hreadable := (hW.reported hrunning).readable h (hpending ▸ List.mem_cons_self) hready
    simp only [if_pos hready, Server.call]
    cases hfun : h.handler with
    | acceptPreinit =>
        rw [Server.acceptor_socket hS hrunning hmem (.inl hfun), Server.readable_listener]
          at hreadable
        cases hbacklog : s.server.backlog with
        | nil => exact absurd hbacklog hreadable
        | cons c more =>
            simp only [Server.acceptPreinit, hbacklog]
            split <;> exact ⟨_, rfl⟩
    | acceptRegular =>
        rw [Server.acceptor_socket hS hrunning hmem (.inr hfun), Server.readable_listener]
          at hreadable
        cases hbacklog : s.server.backlog with
        | nil => exact absurd hbacklog hreadable
        | cons c more =>
            simp only [Server.acceptRegular, hbacklog]
            split <;> exact ⟨_, rfl⟩
    | handlePreinit =>
        rw [Server.readable_eq (Server.preinit_socket hS hrunning hmem hfun)] at hreadable
        have hnot : ¬ ((s.server.conns h.socket).inbox = [] ∧
            ¬ (s.server.conns h.socket).closed) := by
          rintro ⟨hinbox, hopen⟩
          exact hreadable.elim (fun h => h hinbox) hopen
        simp only [Server.handlePreinit, if_neg hnot]
        split
        · cases hlist : s.server.handlers with
          | nil =>
              rw [hlist] at hmem
              exact absurd hmem List.not_mem_nil
          | cons first others => exact ⟨_, rfl⟩
        · exact ⟨_, rfl⟩
    | handleSession =>
        have hnot : ¬ (s.server.conns h.socket).waits code.emptyRecvWaits = true := by
          intro hwaits
          obtain ⟨hopen, hincomplete⟩ := Connection.waits_iff.mp hwaits
          exact hblocked ⟨hfun, hready, hopen, hincomplete⟩
        simp only [Server.handleSession, if_neg hnot]
        exact ⟨_, rfl⟩
    | handleAux =>
        have hsocket := hS.aux_of_mem hmem hfun
        rw [hsocket, Server.readable_eq (by simp)] at hreadable
        have hopen := hW.started.order.intact.auxOpen
        have hlen : ¬ ((s.server.conns h.socket).inbox.length < 4 ∧
            ¬ (s.server.conns h.socket).closed) := by
          rw [hsocket, hW.auxInbox]
          rw [hopen, hW.auxInbox] at hreadable
          cases hflight : s.flight with
          | nil => simp [hflight, Flight.bytes] at hreadable
          | cons v flight =>
              rw [Flight.bytes, List.flatMap_cons, List.length_append, Server.length_sendScalar]
              omega
        simp only [Server.handleAux, if_neg hlen]
        split
        · split
          · exact ⟨_, rfl⟩
          · split <;> exact ⟨_, rfl⟩
        · exact ⟨_, rfl⟩
  · exact ⟨_, if_neg hready⟩

end Tracked

/-! ## One client that holds up all others -/

/-- Neither a byte nor the end of the stream comes from the client. -/
def Event.Silent (n : ℕ) (e : Event) : Prop := e ≠ .close n ∧ ∀ bytes, e ≠ .send n bytes

namespace Tracked

/-- What holds at the end of every run in which no client has sent the magic. -/
theorem watched_run {host : ByteOrder} {code : Surroundings} {early : ℕ} {events : List Event}
    {s : Server} (hrun : run (Server.step host code) (.init host early) events = some s)
    (hsent : s.NoMagicSent host) : ∃ u : Tracked, u.server = s ∧ u.Watched host := by
  have halong := Server.along_noMagicSent (Server.started_init host early).order hrun hsent
  obtain ⟨u, hu, hserver⟩ := run_server (s := init host early) hrun
  refine ⟨u, hserver, ?_⟩
  exact run_invariant (Watched host) (fun s e t hW hsent hs => watched_step hW hsent hs)
    (watched_init host early) (along_server (s := init host early) halong) hu

end Tracked

namespace Server

variable {host : ByteOrder} {code : Surroundings} {s t : Server} {e : Event} {h : Handler}
  {rest : List Handler} {n : ℕ}

/-- The loop waits in the turn of `h`. -/
structure Stuck (code : Surroundings) (s : Server) (h : Handler) (rest : List Handler) : Prop where
  running : s.loop = .running
  pending : s.pending = h :: rest
  blocked : s.Blocked code h

theorem Stuck.onConnection (hS : s.Stuck code h rest) {c : Socket} (hc : h.socket ≠ c)
    (f : Connection → Connection) : (s.onConnection c f).Stuck code h rest := by
  refine ⟨hS.running, hS.pending, hS.blocked.handler, hS.blocked.ready, ?_, ?_⟩
  · simp only [Server.onConnection, Function.update_of_ne hc]
    exact hS.blocked.isOpen
  · simp only [Server.onConnection, Function.update_of_ne hc]
    exact hS.blocked.incomplete

/-- As long as the client is silent, nothing reaches any session. -/
theorem stuck_step (hS : s.Stuck code h rest) (hn : h.socket = .client n) (he : e.Silent n)
    (hs : s.step host code e = some t) :
    t.Stuck code h rest ∧ t.handlers = s.handlers ∧ ∀ c, (t.conns c).log = (s.conns c).log := by
  have hserve : ∀ unset fails, e ≠ .serve unset fails := by
    rintro unset fails rfl
    rw [serve_of_blocked hS.running hS.pending hS.blocked] at hs
    cases hs
  have hkept : t.handlers = s.handlers ∧ ∀ c, (t.conns c).log = (s.conns c).log := by
    rcases step_cases hs with ⟨unset, fails, rfl⟩ | ⟨-, -, hlist, hconns⟩ | houtside
    · exact absurd rfl (hserve unset fails)
    · exact ⟨hlist, fun c => by rw [hconns]⟩
    · exact ⟨houtside.handlers, houtside.log⟩
  refine ⟨?_, hkept⟩
  cases e with
  | serve unset fails => exact absurd rfl (hserve unset fails)
  | select => simp [step, hS.pending] at hs
  | selectFails => simp [step, hS.pending] at hs
  | connect =>
      cases hs
      exact ⟨hS.running, hS.pending, ⟨hS.blocked.handler, hS.blocked.ready, hS.blocked.isOpen,
        hS.blocked.incomplete⟩⟩
  | send m bytes =>
      simp only [step, Option.ite_none_right_eq_some, Option.some.injEq] at hs
      obtain ⟨-, rfl⟩ := hs
      apply hS.onConnection
      rw [hn]
      rintro heq
      cases heq
      exact he.2 bytes rfl
  | close m =>
      simp only [step, Option.ite_none_right_eq_some, Option.some.injEq] at hs
      obtain ⟨-, rfl⟩ := hs
      apply hS.onConnection
      rw [hn]
      rintro heq
      cases heq
      exact he.1 rfl
  | disconnect id =>
      simp only [step, Option.ite_none_right_eq_some, Option.some.injEq] at hs
      obtain ⟨-, rfl⟩ := hs
      exact hS.onConnection (by rw [hn]; simp) _
  | stop =>
      simp only [step, Option.ite_none_left_eq_some, Option.some.injEq] at hs
      obtain ⟨-, rfl⟩ := hs
      have hsent := hS.onConnection (c := .aux) (by rw [hn]; simp)
        (·.receive (sendScalar host 0))
      exact ⟨hsent.running, hsent.pending, ⟨hsent.blocked.handler, hsent.blocked.ready,
        hsent.blocked.isOpen, hsent.blocked.incomplete⟩⟩

/-- From the turn of a session on, as long as its client is silent. -/
theorem stuck_run (hS : s.Stuck code h rest) (hn : h.socket = .client n) {later : List Event}
    (hsilent : ∀ e ∈ later, e.Silent n) (hrun : run (Server.step host code) s later = some t) :
    t.Stuck code h rest ∧ t.handlers = s.handlers ∧ ∀ c, (t.conns c).log = (s.conns c).log := by
  induction later generalizing s with
  | nil =>
      cases hrun
      exact ⟨hS, rfl, fun _ => rfl⟩
  | cons e later ih =>
      obtain ⟨m, hm, hrest⟩ := run_cons_eq_some.mp hrun
      obtain ⟨hM, hlist, hlog⟩ := stuck_step hS hn (hsilent e List.mem_cons_self) hm
      obtain ⟨hT, hlist', hlog'⟩ := ih hM (fun e he => hsilent e (List.mem_cons_of_mem _ he)) hrest
      exact ⟨hT, hlist'.trans hlist, fun c => (hlog' c).trans (hlog c)⟩

end Server

open Server in
/-- For every order of connections, bytes and calls in which no client sends the magic for the
length of its first frame: the turn that is next waits exactly when it is that of a session whose
client is there and has sent a part of a frame, or an empty frame and nothing behind it where
`recv` of no bytes waits. As long as this client is silent, whatever the others and the server's
destructor do, the loop stays in this turn, no session gets a call and no handler comes or goes. -/
theorem turn_waits_for_one_client (host : ByteOrder) (code : Surroundings) (early : ℕ)
    {events : List Event} {s : Server}
    (hrun : run (Server.step host code) (.init host early) events = some s)
    (hsent : s.NoMagicSent host) (hrunning : s.loop = .running) {h : Handler}
    {rest : List Handler} (hpending : s.pending = h :: rest) :
    ((∀ unset fails, s.step host code (.serve unset fails) = none) ↔ s.Blocked code h) ∧
      (s.Blocked code h → ∃ n, h.socket = .client n ∧ ∀ later t, (∀ e ∈ later, e.Silent n) →
        run (Server.step host code) s later = some t →
          t.Stuck code h rest ∧ t.handlers = s.handlers ∧
            ∀ c, (t.conns c).log = (s.conns c).log) := by
  obtain ⟨u, rfl, hW⟩ := Tracked.watched_run hrun hsent
  refine ⟨⟨?_, ?_⟩, ?_⟩
  · intro hwaits
    by_contra hblocked
    obtain ⟨t, ht⟩ := hW.enabled hrunning hpending hblocked 0 false
    rw [hwaits] at ht
    cases ht
  · exact fun hblocked unset fails => serve_of_blocked hrunning hpending hblocked
  · intro hblocked
    obtain ⟨n, hn⟩ := (hW.started.handshake.session_of_mem (mem_handlers_of_pending hpending)
      hblocked.handler).1
    exact ⟨n, hn, fun later t hsilent hlater =>
      stuck_run ⟨hrunning, hpending, hblocked⟩ hn hsilent hlater⟩

/-- An empty frame has come from the first of two clients, and a frame of one byte from the
other. -/
def emptyFrame : List Event :=
  startUp ++ [.connect, .connect, .select, .turn, .turn, .turn, .select, .turn, .turn, .turn,
    .turn, .send 0 [0, 0, 0, 0], .send 1 [0, 0, 0, 1, 7], .select, .turn, .turn]

theorem turn_waits_for_one_client_empty_frame :
    ∃ s h rest, run (Server.step .littleEndian .quiet) (.init .littleEndian 0) emptyFrame =
        some s ∧ s.pending = h :: rest ∧ s.Blocked .quiet h ∧
      ∀ unset fails, s.step .littleEndian .quiet (.serve unset fails) = none := by
  obtain ⟨s, h, rest, hrun, hrunning, hpending, hblocked, hsent⟩ : ∃ s h rest,
      run (Server.step .littleEndian .quiet) (.init .littleEndian 0) emptyFrame = some s ∧
        s.loop = .running ∧ s.pending = h :: rest ∧ s.Blocked .quiet h ∧
        s.NoMagicSent .littleEndian := by
    refine ⟨_, _, _, rfl, rfl, rfl, ?_, fun n => ?_⟩
    · exact ⟨by decide, by decide, by decide, by decide⟩
    rcases n with _ | _ | n
    · decide
    · decide
    · change [] ≠ sendScalar .littleEndian initMagic
      decide
  exact ⟨s, h, rest, hrun, hpending, hblocked, (turn_waits_for_one_client .littleEndian .quiet 0
    hrun hsent hrunning hpending).1.mpr hblocked⟩

end CohesionIpc.Sockets
