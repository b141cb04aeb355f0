import CohesionIpc.Verification.Sockets.Connections
import CohesionIpc.Verification.Sockets.Shutdown

/-! Start-up of the sockets server: until its own connection has been recognised nothing is
taken from a client, and from then on every handler has the function of its connection. -/

namespace CohesionIpc.Sockets

open Transition ByteRepresentation

/-! ## Invariant -/

/-- The handler has the function that belongs to its connection for good. -/
def Settled (conns : Socket → Connection) (h : Handler) : Prop :=
  (h.handler = .acceptRegular ∧ h.socket = .listener) ∨
  (h.handler = .handleAux ∧ h.socket = .aux) ∨
  (h.handler = .handleSession ∧ (∃ n, h.socket = .client n) ∧ (conns h.socket).created = 1)

theorem Settled.congr {conns conns' : Socket → Connection} {h : Handler}
    (hS : Settled conns h)
    (hcreated : (conns' h.socket).created = (conns h.socket).created) : Settled conns' h := by
  rcases hS with hacceptor | haux | ⟨hfun, hclient, hone⟩
  · exact .inl hacceptor
  · exact .inr (.inl haux)
  · exact .inr (.inr ⟨hfun, hclient, hcreated.trans hone⟩)

/-- A connection that waits for the server to be recognised. -/
def Preinit (h : Handler) : Prop := h.handler = .handlePreinit ∧ h.socket ≠ .listener

/-- No client has the magic in front when `handle_preinit` looks at its connection. -/
def OwnMagic (host : ByteOrder) (s : Server) (e : Event) : Prop :=
  ∀ unset fails h n, e = .serve unset fails → s.Serves .handlePreinit h →
    h.socket = .client n → ¬ s.FindsMagic host unset h

namespace Server

/-- The own connection has been recognised: every handler is settled. -/
def Switched (s : Server) : Prop :=
  .aux ∉ s.backlog ∧ ∀ h ∈ s.handlers, Settled s.conns h

/-- Nothing has been recognised, or all handlers are settled, or the session factory has
raised while they were being switched. -/
def Stage (s : Server) : Prop :=
  (∃ first others, s.handlers = first :: others ∧ first.handler = .acceptPreinit ∧
    first.socket = .listener ∧ ∀ h ∈ others, Preinit h ∧ (s.conns h.socket).created = 0) ∨
  s.Switched ∨
  (.aux ∉ s.backlog ∧ s.loop = .raised ∧ ∀ h ∈ s.handlers, Settled s.conns h ∨ Preinit h)

structure Handshake (s : Server) : Prop where
  aux : (s.conns .aux).created = 0
  backlog : .listener ∉ s.backlog
  stage : s.Stage

variable {host : ByteOrder} {code : Surroundings} {s t : Server} {e : Event} {unset : UInt32}
  {fails : Bool} {h : Handler} {rest : List Handler}

theorem Switched.congr (hS : s.Switched) (hhandlers : t.handlers = s.handlers)
    (hcreated : ∀ c, (t.conns c).created = (s.conns c).created)
    (haux : .aux ∈ t.backlog → .aux ∈ s.backlog) : t.Switched := by
  unfold Switched
  rw [hhandlers]
  exact ⟨fun h => hS.1 (haux h), fun h hh => (hS.2 h hh).congr (hcreated _)⟩

/-- A stage depends on the handlers, the backlog, the loop and the sessions created. -/
theorem Stage.congr (hS : s.Stage) (hhandlers : t.handlers = s.handlers)
    (hcreated : ∀ c, (t.conns c).created = (s.conns c).created)
    (haux : .aux ∈ t.backlog → .aux ∈ s.backlog) (hloop : s.loop = .raised → t.loop = .raised) :
    t.Stage := by
  rcases hS with ⟨first, others, hlist, hfun, hsocket, hothers⟩ | hswitched |
    ⟨hbacklog, hraised, hall⟩
  · refine .inl ⟨first, others, hhandlers.trans hlist, hfun, hsocket, fun h hh => ?_⟩
    exact ⟨(hothers h hh).1, (hcreated _).trans (hothers h hh).2⟩
  · exact .inr (.inl (hswitched.congr hhandlers hcreated haux))
  · refine .inr (.inr ⟨fun h => hbacklog (haux h), hloop hraised, fun h hh => ?_⟩)
    rw [hhandlers] at hh
    rcases hall h hh with hsettled | hpreinit
    · exact .inl (hsettled.congr (hcreated _))
    · exact .inr hpreinit

theorem handshake_init (host : ByteOrder) (early : ℕ) : (init host early).Handshake := by
  refine ⟨rfl, ?_, ?_⟩
  · simp [init]
  · exact .inl ⟨_, [], rfl, rfl, rfl, fun h hh => absurd hh List.not_mem_nil⟩

theorem between_backlog {c : Socket} (hbetween : s.Between t) (hc : ∀ n, c ≠ .client n)
    (hmem : c ∈ t.backlog) : c ∈ s.backlog := by
  rcases hbetween.backlog c hmem with hold | hnew
  · exact hold
  · exact absurd hnew (hc _)

theorem Handshake.between (hS : s.Handshake) (hbetween : s.Between t) : t.Handshake := by
  have hcreated : ∀ c, (t.conns c).created = (s.conns c).created :=
    fun c => (hbetween.evolves c).created
  refine ⟨(hcreated .aux).trans hS.aux, ?_, ?_⟩
  · exact fun hmem => hS.backlog (between_backlog hbetween (by simp) hmem)
  · exact hS.stage.congr hbetween.handlers hcreated (between_backlog hbetween (by simp))
      hbetween.raised

/-- The stage while the loop runs, by the function of one handler. -/
theorem Handshake.before (hS : s.Handshake) (hrunning : s.loop = .running) (hh : h ∈ s.handlers)
    (hfun : h.handler = .acceptPreinit ∨ h.handler = .handlePreinit) :
    ∃ first others, s.handlers = first :: others ∧ first.handler = .acceptPreinit ∧
      first.socket = .listener ∧ ∀ h ∈ others, Preinit h ∧ (s.conns h.socket).created = 0 := by
  rcases hS.stage with hbefore | ⟨-, hall⟩ | ⟨-, hraised, -⟩
  · exact hbefore
  · rcases hall h hh with ⟨hfun', -⟩ | ⟨hfun', -⟩ | ⟨hfun', -⟩ <;> rw [hfun'] at hfun <;>
      simp at hfun
  · rw [hrunning] at hraised
    cases hraised

theorem Handshake.after (hS : s.Handshake) (hrunning : s.loop = .running) (hh : h ∈ s.handlers)
    (hpre : h.handler ≠ .acceptPreinit) (hpre' : h.handler ≠ .handlePreinit) : s.Switched := by
  rcases hS.stage with ⟨first, others, hlist, hfun, -, hothers⟩ | hafter | ⟨-, hraised, -⟩
  · rw [hlist] at hh
    rcases List.mem_cons.mp hh with rfl | hh
    · exact absurd hfun hpre
    · exact absurd (hothers h hh).1.1 hpre'
  · exact hafter
  · rw [hrunning] at hraised
    cases hraised

/-! ## Calls before the switch -/

theorem handshake_acceptPreinit (hS : s.Handshake) (hI : s.InOrder fun _ => False)
    (hrunning : s.loop = .running) (hpending : s.pending = h :: rest)
    (hh : h.handler = .acceptPreinit) (hs : s.acceptPreinit fails h rest = some t) :
    t.Handshake := by
  rcases acceptPreinit_cases hs with rfl | ⟨c, more, hbacklog, rfl⟩
  · exact ⟨hS.aux, hS.backlog, hS.stage.congr rfl (fun _ => rfl) id fun _ => rfl⟩
  · rcases hS.before hrunning (mem_handlers_of_pending hpending) (.inl hh) with
      ⟨first, others, hlist, hfun, hsocket, hothers⟩
    have hc : (s.conns c).Untouched :=
      hI.intact.waiting c (by rw [hbacklog]; exact List.mem_cons_self)
    have hbacklog' : .listener ∉ more := fun hmem =>
      hS.backlog (by rw [hbacklog]; exact List.mem_cons_of_mem _ hmem)
    refine ⟨hS.aux, hbacklog', .inl ?_⟩
    refine ⟨first, others ++ [⟨s.nextId, .handlePreinit, c⟩], ?_, hfun, hsocket, ?_⟩
    · rw [← List.cons_append, ← hlist, handlers_proceed, handlers_of_pending hpending]
      simp
    · intro h' hh'
      rcases List.mem_append.mp hh' with hold | hnew
      · exact hothers h' hold
      · rw [List.mem_singleton.mp hnew]
        refine ⟨⟨rfl, ?_⟩, hc.created⟩
        rintro rfl
        exact hS.backlog (by rw [hbacklog]; exact List.mem_cons_self)

/-- The handler that finds the magic serves the connection that the server has made itself. -/
theorem Handshake.aux_of_magic (hS : s.Handshake) (hrunning : s.loop = .running)
    (hh : h ∈ s.handlers) (hfun : h.handler = .handlePreinit)
    (hmagic : ∀ n, h.socket = .client n → ¬ s.FindsMagic host unset h)
    (hfound : s.FindsMagic host unset h) : h.socket = .aux := by
  rcases hS.before hrunning hh (.inr hfun) with ⟨first, others, hlist, hfirst, -, hothers⟩
  rw [hlist] at hh
  have hself : h ∈ others := by
    rcases List.mem_cons.mp hh with rfl | hmem
    · rw [hfun] at hfirst
      cases hfirst
    · exact hmem
  cases hc : h.socket with
  | listener => exact absurd hc (hothers h hself).1.2
  | aux => rfl
  | client n => exact absurd hfound (hmagic n hc)

/-- Only the connection that the server has made itself switches the handlers. -/
theorem handshake_handlePreinit (hS : s.Handshake) (hI : s.InOrder fun _ => False)
    (hrunning : s.loop = .running) (hpending : s.pending = h :: rest)
    (hh : h.handler = .handlePreinit)
    (hmagic : ∀ n, h.socket = .client n → ¬ s.FindsMagic host unset h)
    (hs : s.handlePreinit host code unset h rest = some t) : t.Handshake := by
  rcases handlePreinit_cases hs with ⟨rfl, -⟩ | ⟨first, others, inbox, hfound, -, hlist, hlist',
    hconns, -, hbacklog, hloop⟩
  · refine ⟨hS.aux, hS.backlog, hS.stage.congr ?_ (fun _ => rfl) id id⟩
    rw [handlers_proceed, handlers_of_pending hpending]
  · have hmem := mem_handlers_of_pending hpending
    have haux := hS.aux_of_magic hrunning hmem hh hmagic hfound
    rcases hS.before hrunning hmem (.inr hh) with ⟨first', others', hbefore, -, hsocket, hothers⟩
    rw [hlist, List.cons.injEq] at hbefore
    rcases hbefore with ⟨rfl, rfl⟩
    have hauxBacklog : .aux ∉ s.backlog := fun hc =>
      (List.nodup_append'.mp hI.intact.nodup).2.2 (haux ▸ List.mem_map_of_mem hmem) hc
    have hfirst : Settled t.conns { first with handler := .acceptRegular } := .inl ⟨rfl, hsocket⟩
    have hswitched : ∀ h' ∈ (assign code h others).1, Settled t.conns h' ∨
        ((assign code h others).2.2 ∧ Preinit h') := by
      intro h' hh'
      rcases mem_assign hh' with ⟨hfun', hsocket'⟩ | ⟨hfun', hgiven⟩ | ⟨hraised, hold⟩
      · exact .inl (.inr (.inl ⟨hfun', hsocket'.trans haux⟩))
      · left
        rcases mem_sessions_assign hgiven with ⟨hsockets, hne⟩
        rcases List.mem_map.mp hsockets with ⟨h₀, hh₀, hsame⟩
        have hcreated := (hothers h₀ hh₀).2
        rw [hsame] at hcreated
        refine .inr (.inr ⟨hfun', ?_, ?_⟩)
        · cases hc : h'.socket with
          | listener => exact absurd (hsame.trans hc) (hothers h₀ hh₀).1.2
          | aux => exact absurd (hc.trans haux.symm) hne
          | client n => exact ⟨n, rfl⟩
        · rw [hconns, switchedConns, if_neg hne, if_pos hgiven]
          simp [hcreated]
      · exact .inr ⟨hraised, (hothers h' hold).1⟩
    refine ⟨?_, by rw [hbacklog]; exact hS.backlog, ?_⟩
    · rw [hconns, switchedConns, if_pos haux.symm]
      exact hS.aux
    · cases hraises : (assign code h others).2.2 with
      | false =>
          refine .inr (.inl ⟨by rw [hbacklog]; exact hauxBacklog, fun h' hh' => ?_⟩)
          rw [hlist'] at hh'
          rcases List.mem_cons.mp hh' with rfl | hh'
          · exact hfirst
          · rcases hswitched h' hh' with hsettled | ⟨hr, -⟩
            · exact hsettled
            · rw [hraises] at hr
              cases hr
      | true =>
          refine .inr (.inr ⟨by rw [hbacklog]; exact hauxBacklog, ?_, fun h' hh' => ?_⟩)
          · rw [hloop, if_pos hraises]
          · rw [hlist'] at hh'
            rcases List.mem_cons.mp hh' with rfl | hh'
            · exact .inl hfirst
            · exact (hswitched h' hh').imp_right And.right

/-! ## Calls after the switch -/

theorem switched_acceptRegular (hS : s.Handshake) (hI : s.InOrder fun _ => False)
    (hafter : s.Switched) (hpending : s.pending = h :: rest)
    (hs : s.acceptRegular code fails h rest = some t) : t.Handshake ∧ t.Switched := by
  rcases acceptRegular_spec hpending hs with rfl | ⟨c, more, hbacklog, hlist, hconns, -, hbacklog'⟩
  · have hswitched := hafter.congr (t := { s with loop := .raised }) rfl (fun _ => rfl) id
    exact ⟨⟨hS.aux, hS.backlog, .inr (.inl hswitched)⟩, hswitched⟩
  · have hmem : c ∈ s.backlog := by rw [hbacklog]; exact List.mem_cons_self
    have hmore : ∀ d ∈ more, d ∈ s.backlog := by
      intro d hd
      rw [hbacklog]
      exact List.mem_cons_of_mem _ hd
    have hauxne : c ≠ .aux := fun hc => hafter.1 (hc ▸ hmem)
    have hclient : ∃ n, c = .client n := by
      cases c with
      | listener => exact absurd hmem hS.backlog
      | aux => exact absurd rfl hauxne
      | client n => exact ⟨n, rfl⟩
    have hswitched : t.Switched := by
      refine ⟨?_, ?_⟩
      · rw [hbacklog']
        exact fun hl => hafter.1 (hmore _ hl)
      · intro h' hh'
        rw [hlist] at hh'
        rcases List.mem_append.mp hh' with hold | hnew
        · apply (hafter.2 h' hold).congr
          have hne : h'.socket ≠ c := by
            rintro rfl
            exact (List.nodup_append'.mp hI.intact.nodup).2.2 (List.mem_map_of_mem hold) hmem
          rw [hconns, Function.update_of_ne hne]
        · rw [List.mem_singleton.mp hnew]
          refine .inr (.inr ⟨rfl, hclient, ?_⟩)
          rw [hconns, Function.update_self]
          simp [(hI.intact.waiting c hmem).created]
    refine ⟨⟨?_, ?_, .inr (.inl hswitched)⟩, hswitched⟩
    · rw [hconns, Function.update_of_ne (Ne.symm hauxne)]
      exact hS.aux
    · rw [hbacklog']
      exact fun hl => hS.backlog (hmore _ hl)

/-- The connection of a settled handler is read. -/
theorem switched_read (hS : s.Handshake) (hafter : s.Switched)
    (hsub : t.handlers.Sublist s.handlers) (hbacklog : t.backlog = s.backlog) {k : Connection}
    (hconns : t.conns = Function.update s.conns h.socket k)
    (hcreated : k.created = (s.conns h.socket).created) : t.Handshake ∧ t.Switched := by
  have hkeep : ∀ c, (t.conns c).created = (s.conns c).created := by
    intro c
    rw [hconns]
    exact field_update Connection.created hcreated c
  have hswitched : t.Switched :=
    ⟨hbacklog ▸ hafter.1, fun h' hh' => (hafter.2 h' (hsub.subset hh')).congr (hkeep _)⟩
  exact ⟨⟨(hkeep .aux).trans hS.aux, hbacklog ▸ hS.backlog, .inr (.inl hswitched)⟩, hswitched⟩

/-- Settled handlers stay settled, and the new one gets its session at once. -/
theorem switched_call (hS : s.Handshake) (hI : s.InOrder fun _ => False) (hafter : s.Switched)
    (hpending : s.pending = h :: rest) (hs : s.call host code unset fails h rest = some t) :
    t.Handshake ∧ t.Switched := by
  rw [call] at hs
  rcases hafter.2 h (mem_handlers_of_pending hpending) with ⟨hfun, -⟩ | ⟨hfun, -⟩ | ⟨hfun, -⟩
  · rw [hfun] at hs
    exact switched_acceptRegular hS hI hafter hpending hs
  · rw [hfun] at hs
    rcases handleAux_cases hpending hs with ⟨hconns, -, hbacklog, hsub, -⟩
    exact switched_read hS hafter hsub hbacklog hconns rfl
  · rw [hfun] at hs
    have hsub := served_sublist hpending hs
    rcases handleSession_cases hs with ⟨outcome, rfl, -⟩
    exact switched_read hS hafter hsub (served_backlog _ _ _ _ _) (served_conns _ _ _ _ _) rfl

/-! ## Steps -/

theorem handshake_proceed (hS : s.Handshake) (hpending : s.pending = h :: rest) :
    (s.proceed h rest).Handshake := by
  refine ⟨hS.aux, hS.backlog, hS.stage.congr ?_ (fun _ => rfl) id id⟩
  rw [handlers_proceed, handlers_of_pending hpending]

theorem handshake_step (hS : s.Handshake) (hI : s.InOrder fun _ => False)
    (hmagic : OwnMagic host s e) (hs : s.step host code e = some t) : t.Handshake := by
  by_cases hserve : ∃ unset fails, e = .serve unset fails
  · rcases hserve with ⟨unset, fails, rfl⟩
    rcases serve_cases hs with ⟨hrunning, h, rest, hpending, ⟨-, rfl⟩ | ⟨hserves, hcall⟩⟩
    · exact handshake_proceed hS hpending
    · by_cases hpre : h.handler = .acceptPreinit
      · rw [call, hpre] at hcall
        exact handshake_acceptPreinit hS hI hrunning hpending hpre hcall
      · by_cases hpre' : h.handler = .handlePreinit
        · rw [call, hpre'] at hcall
          rw [hpre'] at hserves
          exact handshake_handlePreinit hS hI hrunning hpending hpre'
            (fun n hn => hmagic unset fails h n rfl hserves hn) hcall
        · have hafter := hS.after hrunning (mem_handlers_of_pending hpending) hpre hpre'
          exact (switched_call hS hI hafter hpending hcall).1
  · exact hS.between (between_step hI.intact.auxOpen hs fun unset fails he =>
      hserve ⟨unset, fails, he⟩)

/-- The handlers are never switched back. -/
theorem switched_step (hS : s.Handshake) (hI : s.InOrder fun _ => False) (hafter : s.Switched)
    (hs : s.step host code e = some t) : t.Switched := by
  by_cases hserve : ∃ unset fails, e = .serve unset fails
  · rcases hserve with ⟨unset, fails, rfl⟩
    rcases serve_cases hs with ⟨-, h, rest, hpending, ⟨-, rfl⟩ | ⟨-, hcall⟩⟩
    · refine hafter.congr (t := s.proceed h rest) ?_ (fun _ => rfl) id
      rw [handlers_proceed, handlers_of_pending hpending]
    · exact (switched_call hS hI hafter hpending hcall).2
  · have hbetween := between_step hI.intact.auxOpen hs fun unset fails he =>
      hserve ⟨unset, fails, he⟩
    exact hafter.congr hbetween.handlers (fun c => (hbetween.evolves c).created)
      (between_backlog hbetween (by simp))

end Server

/-! ## The control role -/

/-- Only the server has control of itself, as far as a step from `s` to `t` goes. -/
structure OwnControl (code : Surroundings) (s : Server) (e : Event) (t : Server) : Prop where
  /-- `handle_aux` serves no other connection than that of `connect_aux`. -/
  aux : ∀ h ∈ t.handlers, h.handler = .handleAux → h.socket = .aux
  /-- That connection gets no session. -/
  session : (t.conns .aux).created = 0 ∧
    ∀ h ∈ t.handlers, h.socket = .aux → h.handler ≠ .handleSession
  /-- A turn on the connection of a client leaves all other handlers in the list and, unless
  the session raises, the loop running. -/
  client : ∀ unset fails f h n, e = .serve unset fails → s.Serves f h → h.socket = .client n →
    (t.loop = .running ∨ (f = .handleSession ∧ t.loop = .raised ∧
      code.messageRaises h.socket (t.conns h.socket).log)) ∧
    ∀ h' ∈ s.handlers, h' = h ∨ (h'.id, h'.socket) ∈ t.handlers.map fun h => (h.id, h.socket)

namespace Server

variable {host : ByteOrder} {code : Surroundings} {s t : Server} {e : Event} {unset : UInt32}
  {fails : Bool} {h : Handler} {rest : List Handler}

/-- The session code alone raises in a turn of `handle_session`. -/
theorem loop_handleSession (hrunning : s.loop = .running)
    (hs : s.handleSession host code unset h rest = some t) :
    t.loop = .running ∨ (t.loop = .raised ∧
      code.messageRaises h.socket (t.conns h.socket).log) := by
  rcases handleSession_cases hs with ⟨outcome, rfl, hcases⟩
  have hstatus : outcome.status ≠ .exit := by
    rcases hcases with ⟨p, -, -, hstatus⟩ | ⟨-, -, ⟨-, -, -, hstatus⟩ | ⟨-, -, hstatus⟩⟩ <;>
      simp [hstatus]
  rw [served_conns, Function.update_self]
  simp only [served]
  split
  · exact .inl hrunning
  · rename_i hexit
    exact absurd hexit hstatus
  · split
    · rename_i hraises
      exact .inr ⟨rfl, hraises⟩
    · exact .inl hrunning

theorem stay_handleSession (hpending : s.pending = h :: rest)
    (hs : s.handleSession host code unset h rest = some t) :
    ∀ h' ∈ s.handlers, h' = h ∨ h' ∈ t.handlers := by
  rcases handleSession_cases hs with ⟨outcome, rfl, hcases⟩
  intro h' hh'
  rcases hcases with ⟨p, -, -, hstatus⟩ | ⟨-, -, ⟨-, -, -, hstatus⟩ | ⟨-, -, hstatus⟩⟩
  · rw [served_proceed hpending hstatus]
    exact .inr hh'
  · rw [(served_removeThis hstatus).1]
    rw [handlers_of_pending hpending] at hh'
    rcases List.mem_append.mp hh' with hvisited | hcons
    · exact .inr (List.mem_append_left _ hvisited)
    · exact (List.mem_cons.mp hcons).imp_right (List.mem_append_right _)
  · rw [served_proceed hpending hstatus]
    exact .inr hh'

/-- The functions that serve the connection of a client. -/
theorem Handshake.client (hS : s.Handshake) (hrunning : s.loop = .running) (hh : h ∈ s.handlers)
    {n : ℕ} (hn : h.socket = .client n) :
    h.handler = .handlePreinit ∨ h.handler = .handleSession := by
  rcases hS.stage with ⟨first, others, hlist, -, hsocket, hothers⟩ | ⟨-, hall⟩ | ⟨-, hraised, -⟩
  · rw [hlist] at hh
    rcases List.mem_cons.mp hh with rfl | hh
    · rw [hn] at hsocket
      cases hsocket
    · exact .inl (hothers h hh).1.1
  · rcases hall h hh with ⟨-, hsocket⟩ | ⟨-, hsocket⟩ | ⟨hfun, -⟩
    · rw [hn] at hsocket
      cases hsocket
    · rw [hn] at hsocket
      cases hsocket
    · exact .inr hfun
  · rw [hrunning] at hraised
    cases hraised

/-- A handler that the recognition has not left alone has its place. -/
theorem Handshake.settled_of_mem (hS : s.Handshake) (hh : h ∈ s.handlers)
    (hacceptor : h.handler ≠ .acceptPreinit) (hpreinit : h.handler ≠ .handlePreinit) :
    Settled s.conns h := by
  rcases hS.stage with ⟨first, others, hlist, hfirst, -, hothers⟩ | ⟨-, hall⟩ | ⟨-, -, hall⟩
  · rw [hlist] at hh
    rcases List.mem_cons.mp hh with rfl | hh
    · exact absurd hfirst hacceptor
    · exact absurd (hothers h hh).1.1 hpreinit
  · exact hall h hh
  · exact (hall h hh).resolve_right fun hpre => hpreinit hpre.1

theorem Handshake.aux_of_mem (hS : s.Handshake) (hh : h ∈ s.handlers)
    (hfun : h.handler = .handleAux) : h.socket = .aux := by
  have hsettled := hS.settled_of_mem hh (by simp [hfun]) (by simp [hfun])
  rcases hsettled with ⟨hother, -⟩ | ⟨-, hsocket⟩ | ⟨hother, -⟩
  · rw [hfun] at hother
    cases hother
  · exact hsocket
  · rw [hfun] at hother
    cases hother

theorem Handshake.session_of_mem (hS : s.Handshake) (hh : h ∈ s.handlers)
    (hfun : h.handler = .handleSession) :
    (∃ n, h.socket = .client n) ∧ (s.conns h.socket).created = 1 := by
  have hsettled := hS.settled_of_mem hh (by simp [hfun]) (by simp [hfun])
  rcases hsettled with ⟨hother, -⟩ | ⟨hother, -⟩ | ⟨-, hclient, hone⟩
  · rw [hfun] at hother
    cases hother
  · rw [hfun] at hother
    cases hother
  · exact ⟨hclient, hone⟩

/-- The running handler is the one that gets `handle_aux`, unless the factory raises. -/
theorem self_mem_assign {self : Handler} {hs : List Handler} (hself : self ∈ hs)
    (hquiet : (assign code self hs).2.2 = false) :
    { self with handler := .handleAux } ∈ (assign code self hs).1 := by
  induction hs with
  | nil => exact absurd hself List.not_mem_nil
  | cons x xs ih =>
      rw [assign] at hquiet ⊢
      by_cases hsocket : x.socket = self.socket
      · rw [if_pos hsocket] at hquiet ⊢
        rcases List.mem_cons.mp hself with rfl | hmem
        · exact List.mem_cons_self
        · exact List.mem_cons_of_mem _ (ih hmem hquiet)
      · rw [if_neg hsocket] at hquiet ⊢
        have hmem : self ∈ xs := by
          rcases List.mem_cons.mp hself with rfl | hmem
          · exact absurd rfl hsocket
          · exact hmem
        split at hquiet
        · cases hquiet
        · rename_i hraises
          rw [if_neg hraises]
          exact List.mem_cons_of_mem _ (ih hmem hquiet)

theorem ownControl_of_ownMagic (hS : s.Handshake) (hT : t.Handshake) (hmagic : OwnMagic host s e)
    (hs : s.step host code e = some t) : OwnControl code s e t := by
  refine ⟨fun h hh hfun => hT.aux_of_mem hh hfun, ⟨hT.aux, ?_⟩, ?_⟩
  · intro h hh hsocket hfun
    rcases (hT.session_of_mem hh hfun).1 with ⟨n, hn⟩
    rw [hn] at hsocket
    cases hsocket
  · rintro unset fails f h n rfl hh hn
    rcases call_of_serves hh hs with ⟨rest, hpending, hcall⟩
    have hfun := hS.client hh.running (mem_handlers_of_pending hpending) hn
    rw [call, hh.handler] at hcall
    rw [hh.handler] at hfun
    rcases hfun with rfl | rfl
    · rcases handlePreinit_cases hcall with ⟨rfl, -⟩ | ⟨first, others, inbox, hfound, -⟩
      · refine ⟨.inl hh.running, fun h' hh' => .inr ?_⟩
        rw [handlers_proceed, ← handlers_of_pending hpending]
        exact List.mem_map_of_mem hh'
      · exact absurd hfound (hmagic unset fails h n rfl hh hn)
    · refine ⟨(loop_handleSession hh.running hcall).imp_right fun hraised => ⟨rfl, hraised⟩, ?_⟩
      intro h' hh'
      exact (stay_handleSession hpending hcall h' hh').imp_right List.mem_map_of_mem

/-- A client with the magic in front gets `handle_aux`, unless the factory raises before. -/
theorem ownMagic_of_ownControl (hS : s.Handshake) (hs : s.step host code e = some t)
    (hT : OwnControl code s e t) : OwnMagic host s e := by
  rintro unset fails h n rfl hh hn hfound
  rcases call_of_serves hh hs with ⟨rest, hpending, hcall⟩
  rw [call, hh.handler] at hcall
  have hmem := mem_handlers_of_pending hpending
  rcases handlePreinit_cases hcall with ⟨-, hnot⟩ |
    ⟨first, others, inbox, -, -, hlist, hlist', -, -, -, hloop⟩
  · exact hnot hfound
  · have hself : h ∈ others := by
      rcases hS.before hh.running hmem (.inr hh.handler) with ⟨first', others', hlist₀, hfun, -⟩
      rw [hlist, List.cons.injEq] at hlist₀
      rcases hlist₀ with ⟨rfl, rfl⟩
      rw [hlist] at hmem
      rcases List.mem_cons.mp hmem with rfl | hmem
      · rw [hh.handler] at hfun
        cases hfun
      · exact hmem
    have hrunning : t.loop = .running := by
      rcases (hT.client unset fails .handlePreinit h n rfl hh hn).1 with hrunning | ⟨hfun, -⟩
      · exact hrunning
      · cases hfun
    have hquiet : (assign code h others).2.2 = false := by
      by_contra hraised
      rw [Bool.not_eq_false] at hraised
      rw [hloop, if_pos hraised] at hrunning
      cases hrunning
    have haux : { h with handler := .handleAux } ∈ t.handlers := by
      rw [hlist']
      exact List.mem_cons_of_mem _ (self_mem_assign hself hquiet)
    have hsocket : h.socket = .aux := hT.aux { h with handler := .handleAux } haux rfl
    rw [hn] at hsocket
    cases hsocket

/-- Connections stay in order where none is watched. -/
theorem unwatched_step (hI : s.InOrder fun _ => False) (hs : s.step host code e = some t) :
    t.InOrder fun _ => False :=
  inOrder_step hI (fun _ _ _ _ _ hw => hw.elim) hs

end Server

/-- For every session code, any order of connections, whatever the clients send: the server
alone has control of itself throughout the run exactly when no client has the magic in front
when its connection is looked at before the server is recognised. -/
theorem own_control_iff (host : ByteOrder) (code : Surroundings) (early : ℕ) {events : List Event}
    (hrun : (run (Server.step host code) (.init host early) events).isSome) :
    Through (Server.step host code) (OwnControl code) (.init host early) events ↔
      Along (Server.step host code) (OwnMagic host) (.init host early) events := by
  apply through_iff_along_of_step fun s => s.InOrder (fun _ => False) ∧ s.Handshake
  · intro s e t hI hmagic hs
    have hT := Server.handshake_step hI.2 hI.1 hmagic hs
    exact ⟨⟨Server.unwatched_step hI.1 hs, hT⟩, Server.ownControl_of_ownMagic hI.2 hT hmagic hs⟩
  · exact fun s e t hI hs hT => Server.ownMagic_of_ownControl hI.2 hs hT
  · exact ⟨Server.inOrder_init _ host early, Server.handshake_init host early⟩
  · exact hrun

/-- A client that has connected before the server itself has. -/
def earlyClient (bytes : List UInt8) : List Event :=
  [.send 0 bytes, .select, .turn, .turn, .select, .turn]

/-- It sends the header of a frame. -/
theorem own_control_iff_early_client :
    Through (Server.step .littleEndian .quiet) (OwnControl .quiet) (.init .littleEndian 1)
        (earlyClient [0, 0, 0, 1] ++ [.turn, .turn, .select, .turn, .turn, .turn]) ↔
      Along (Server.step .littleEndian .quiet) (OwnMagic .littleEndian) (.init .littleEndian 1)
        (earlyClient [0, 0, 0, 1] ++ [.turn, .turn, .select, .turn, .turn, .turn]) :=
  own_control_iff .littleEndian .quiet 1 (by rfl)

/-- A client that sends the magic gets the control role, and the server's own connection a
session; with the id of the acceptor it makes the server drop the acceptor. -/
theorem early_client_takes_control :
    (∃ t, run (Server.step .littleEndian .quiet) (.init .littleEndian 1)
        (earlyClient [0xFF, 0xFF, 0xFF, 0xFE] ++ [.turn, .turn, .send 0 [0, 0, 0, 100], .select,
          .turn, .turn]) = some t ∧
      t.handlers = [⟨101, .handleAux, .client 0⟩, ⟨102, .handleSession, .aux⟩]) ∧
    ¬ Through (Server.step .littleEndian .quiet) (OwnControl .quiet) (.init .littleEndian 1)
      (earlyClient [0xFF, 0xFF, 0xFF, 0xFE] ++ [.turn]) := by
  refine ⟨⟨_, rfl, rfl⟩, ?_⟩
  intro h
  have hlast := (through_append h rfl _ rfl).1.aux ⟨101, .handleAux, .client 0⟩ (by decide) rfl
  cases hlast

end CohesionIpc.Sockets
