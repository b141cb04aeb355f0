import CohesionIpc.Verification.Sockets.Progress

/-! Which sessions and clients keep the ids on their way those of handlers in the list, so that the
loop stops on purpose only. -/

namespace CohesionIpc.Sockets

open Transition

/-- What `handle_aux` may receive: the id of a handler, or the stop code that has been sent. -/
def Server.Known (s : Server) (v : UInt32 × Option Socket) : Prop :=
  v = (0, none) ∧ s.stopSent = true ∨ v.2 ≠ none ∧ ∃ h ∈ s.handlers, h.id = v.1

namespace Tracked

/-- No session calls `disconnect` a second time, and none is removed at the end of its stream while
its id is on its way. -/
structure Orderly (s : Tracked) (e : Event) : Prop where
  once : ∀ id, e = .disconnect id → ∀ v ∈ s.flight, v.1 ≠ id
  stays : ∀ unset fails h, e = .serve unset fails → s.server.Serves .handleSession h →
    (s.server.conns h.socket).inbox = [] → (s.server.conns h.socket).closed = true →
      ∀ v ∈ s.flight, v.1 ≠ h.id

/-- Only the magic stands for nothing, and it comes first; no id comes twice. -/
structure AllKnown (s : Tracked) : Prop where
  values : ∀ v ∈ s.flight, v = (initMagic, none) ∧ s.server.Waiting ∨ s.server.Known v
  behind : ∀ v ∈ s.flight.tail, s.server.Known v
  distinct : s.flight.Pairwise fun v w => w.2 = none ∨ v.1 ≠ w.1

end Tracked

namespace Server

variable {host : ByteOrder} {code : Surroundings} {s t : Server} {e : Event} {unset : UInt32}
  {fails : Bool} {h : Handler} {rest : List Handler} {v : UInt32 × Option Socket}

theorem Known.mono (hv : s.Known v) (hstop : s.stopSent = true → t.stopSent = true)
    (hids : ∀ h ∈ s.handlers, h.id = v.1 → ∃ h' ∈ t.handlers, h'.id = v.1) : t.Known v := by
  rcases hv with ⟨hcode, hsent⟩ | ⟨hsome, h, hh, hid⟩
  · exact .inl ⟨hcode, hstop hsent⟩
  · exact .inr ⟨hsome, hids h hh hid⟩

theorem stopSent_between (hs : s.step host code e = some t)
    (hserve : ∀ unset fails, e ≠ .serve unset fails) (hstop : s.stopSent = true) :
    t.stopSent = true := by
  cases e with
  | serve unset fails => exact absurd rfl (hserve unset fails)
  | connect =>
      cases hs
      exact hstop
  | stop =>
      simp only [step, Option.ite_none_left_eq_some, Option.some.injEq] at hs
      obtain ⟨-, rfl⟩ := hs
      rfl
  | _ =>
      simp only [step, Option.ite_none_right_eq_some, Option.some.injEq] at hs
      obtain ⟨-, rfl⟩ := hs
      exact hstop

/-- A turn that takes no value leaves the handlers in the list, but for a session at the end of its
stream. -/
theorem handlers_call (hpending : s.pending = h :: rest) (hrunning : t.loop = .running)
    (hs : s.call host code unset fails h rest = some t) (hfun : h.handler ≠ .handleAux)
    (hmagic : h.handler = .handlePreinit → ¬ s.FindsMagic host unset h) :
    (∀ h' ∈ s.handlers, h' ∈ t.handlers) ∨ h.handler = .handleSession ∧
      (s.conns h.socket).inbox = [] ∧ (s.conns h.socket).closed = true ∧
      t.handlers = s.visited ++ rest := by
  have hlist := handlers_of_pending hpending
  simp only [call] at hs
  split at hs
  · left
    rcases acceptPreinit_cases hs with rfl | ⟨c, more, -, rfl⟩
    · cases hrunning
    · rw [handlers_proceed, hlist, ← List.cons_append, ← List.append_assoc]
      exact fun h' hh' => List.mem_append_left _ hh'
  · left
    rcases acceptRegular_cases hs with rfl | ⟨c, more, -, rfl⟩
    · cases hrunning
    · rw [handlers_proceed, hlist, ← List.cons_append, ← List.append_assoc]
      exact fun h' hh' => List.mem_append_left _ hh'
  · rename_i hpreinit
    left
    rcases handlePreinit_cases hs with ⟨rfl, -⟩ | ⟨first, others, inbox, hfound, -⟩
    · rw [handlers_proceed, hlist]
      exact fun h' hh' => hh'
    · exact absurd hfound (hmagic hpreinit)
  · rename_i hsession
    obtain ⟨outcome, rfl, hcases⟩ := handleSession_cases hs
    rcases hcases with ⟨p, -, -, hstatus⟩ | ⟨-, hclosed, ⟨hinbox, -, -, hstatus⟩ | ⟨-, -, hstatus⟩⟩
    · left
      rw [served_proceed hpending hstatus]
      exact fun h' hh' => hh'
    · exact .inr ⟨hsession, hinbox, hclosed, (served_removeThis hstatus).1⟩
    · left
      rw [served_proceed hpending hstatus]
      exact fun h' hh' => hh'
  · rename_i haux
    exact absurd haux hfun

end Server

namespace Tracked

variable {host : ByteOrder} {code : Surroundings} {s t : Tracked} {e : Event}

theorem allKnown_init (host : ByteOrder) (early : ℕ) : (init host early).AllKnown := by
  refine ⟨?_, fun v hv => absurd hv List.not_mem_nil, List.pairwise_singleton _ _⟩
  intro v hv
  rw [List.mem_singleton.mp hv]
  exact .inl ⟨rfl, _, List.mem_cons_self, rfl⟩

/-- Nothing new is on its way. -/
theorem AllKnown.keep (hA : s.AllKnown) (hflight : t.flight = s.flight)
    (hwaiting : s.server.Waiting → t.server.Waiting)
    (hknown : ∀ v ∈ s.flight, s.server.Known v → t.server.Known v) : t.AllKnown := by
  refine ⟨?_, ?_, hflight ▸ hA.distinct⟩
  · intro v hv
    rw [hflight] at hv
    exact (hA.values v hv).imp (And.imp_right hwaiting) (hknown v hv)
  · intro v hv
    rw [hflight] at hv
    exact hknown v (List.mem_of_mem_tail hv) (hA.behind v hv)

/-- The value in front has been taken. -/
theorem AllKnown.take (hA : s.AllKnown) (hflight : t.flight = s.flight.tail)
    (hknown : ∀ v ∈ s.flight.tail, s.server.Known v → t.server.Known v) : t.AllKnown := by
  have hbehind : ∀ v ∈ s.flight.tail, t.server.Known v := fun v hv => hknown v hv (hA.behind v hv)
  refine ⟨?_, ?_, ?_⟩
  · intro v hv
    rw [hflight] at hv
    exact .inr (hbehind v hv)
  · intro v hv
    rw [hflight] at hv
    exact hbehind v (List.mem_of_mem_tail hv)
  · rw [hflight]
    exact hA.distinct.sublist (List.tail_sublist _)

/-- A value sets out behind the others. -/
theorem AllKnown.append (hA : s.AllKnown) {v : UInt32 × Option Socket}
    (hflight : t.flight = s.flight ++ [v]) (hwaiting : s.server.Waiting → t.server.Waiting)
    (hknown : ∀ v, s.server.Known v → t.server.Known v) (hv : t.server.Known v)
    (hnew : v.2 = none ∨ ∀ w ∈ s.flight, w.1 ≠ v.1) : t.AllKnown := by
  refine ⟨?_, ?_, ?_⟩
  · intro w hw
    rw [hflight] at hw
    rcases List.mem_append.mp hw with hw | hw
    · exact (hA.values w hw).imp (And.imp_right hwaiting) (hknown w)
    · rw [List.mem_singleton.mp hw]
      exact .inr hv
  · intro w hw
    rw [hflight] at hw
    cases hbefore : s.flight with
    | nil =>
        rw [hbefore] at hw
        exact absurd hw List.not_mem_nil
    | cons first others =>
        rw [hbefore] at hw
        rcases List.mem_append.mp hw with hw | hw
        · exact hknown w (hA.behind w (by rw [hbefore]; exact hw))
        · rw [List.mem_singleton.mp hw]
          exact hv
  · rw [hflight, List.pairwise_append]
    refine ⟨hA.distinct, List.pairwise_singleton _ _, ?_⟩
    intro w hw x hx
    rw [List.mem_singleton.mp hx]
    exact hnew.imp_right fun h => h w hw

/-- What `handle_aux` takes is known, and what it removes is no handler of the values behind. -/
theorem allKnown_handleAux (code : Surroundings) (hA : s.AllKnown) (hW : s.Watched host)
    {unset : UInt32} {h : Handler} {rest : List Handler} (hpending : s.server.pending = h :: rest)
    (hserves : s.server.Serves .handleAux h) (hsocket : h.socket = .aux)
    (hs : s.server.handleAux host unset h rest = some t.server)
    (hrunning : t.server.loop = .running) (hflight : t.flight = s.flight.tail) : t.AllKnown := by
  have hcall : s.server.call host code unset false h rest = some t.server := by
    rw [Server.call, hserves.handler]
    exact hs
  have hstop := (Server.accepts_call hpending hrunning hcall).1
  refine hA.take hflight fun w hw hknown => ?_
  cases hvalues : s.flight with
  | nil =>
      rw [hvalues] at hw
      exact absurd hw List.not_mem_nil
  | cons v flight =>
      rw [hvalues] at hw
      obtain ⟨-, hvalue, hresult⟩ := receivedId_of_flight hW.inv hserves hsocket hvalues unset
      have hlist := Server.handleAux_eraseP hpending (by rw [hresult]; decide) hs
      rw [hvalue] at hlist
      have hdistinct := hA.distinct
      rw [hvalues, List.pairwise_cons] at hdistinct
      rcases hknown with ⟨hcode, hsent⟩ | ⟨hsome, h', hh', hid⟩
      · exact .inl ⟨hcode, hstop ▸ hsent⟩
      · refine .inr ⟨hsome, h', ?_, hid⟩
        rw [hlist, List.mem_eraseP_of_neg]
        · exact hh'
        · have hne := (hdistinct.1 w hw).resolve_left hsome
          simpa [hid] using hne.symm

/-- The magic is taken, and the handlers keep their places. -/
theorem allKnown_handlePreinit (hA : s.AllKnown) {unset : UInt32} {h : Handler}
    {rest : List Handler} (hfound : s.server.FindsMagic host unset h)
    (hs : s.server.handlePreinit host code unset h rest = some t.server)
    (hstop : t.server.stopSent = s.server.stopSent) (hflight : t.flight = s.flight.tail) :
    t.AllKnown := by
  refine hA.take hflight fun v _ hv => hv.mono (fun h => hstop.trans h) fun h' hh' hid => ?_
  rcases Server.handlePreinit_cases hs with ⟨-, hnot⟩ |
    ⟨first, others, inbox, -, -, hlist, hswitched, -⟩
  · exact absurd hfound hnot
  · have hplaces : t.server.handlers.map (fun h => (h.id, h.socket)) =
        s.server.handlers.map fun h => (h.id, h.socket) := by
      rw [hlist, hswitched]
      simp [Server.map_place_assign]
    have hplace := List.mem_map_of_mem (f := fun h : Handler => (h.id, h.socket)) hh'
    rw [← hplaces] at hplace
    obtain ⟨h'', hh'', hsame⟩ := List.mem_map.mp hplace
    exact ⟨h'', hh'', (Prod.mk.inj hsame).1.trans hid⟩

/-- A handler leaves the list that is none of those whose ids are on their way. -/
theorem allKnown_leaves (hA : s.AllKnown) {h : Handler} {rest : List Handler}
    (hpending : s.server.pending = h :: rest) (hlist : t.server.handlers = s.server.visited ++ rest)
    (hgone : ∀ v ∈ s.flight, v.1 ≠ h.id) (hwaiting : ¬ s.server.Waiting)
    (hstop : t.server.stopSent = s.server.stopSent) (hflight : t.flight = s.flight) :
    t.AllKnown := by
  refine hA.keep hflight (fun hw => absurd hw hwaiting) fun v hv hknown => ?_
  refine hknown.mono (fun h => hstop.trans h) fun h' hh' hid => ⟨h', ?_, hid⟩
  rw [hlist]
  rw [Server.handlers_of_pending hpending] at hh'
  rcases List.mem_append.mp hh' with hh' | hh'
  · exact List.mem_append_left _ hh'
  · refine List.mem_append_right _ ((List.mem_cons.mp hh').resolve_left ?_)
    rintro rfl
    exact hgone v hv hid.symm

/-- No handler goes, and nothing is taken. -/
theorem allKnown_stays (hA : s.AllKnown)
    (hsub : ∀ h' ∈ s.server.handlers, h' ∈ t.server.handlers)
    (hstop : t.server.stopSent = s.server.stopSent) (hflight : t.flight = s.flight) :
    t.AllKnown := by
  refine hA.keep hflight ?_ fun v _ hv => hv.mono (fun h => hstop.trans h)
    fun h' hh' hid => ⟨h', hsub h' hh', hid⟩
  rintro ⟨h', hh', hwaits⟩
  exact ⟨h', hsub h' hh', hwaits⟩

theorem allKnown_serve (hA : s.AllKnown) (hW : s.Watched host) (hsent : s.server.NoMagicSent host)
    {unset : UInt32} {fails : Bool} (ho : s.Orderly (.serve unset fails))
    (hs : s.step host code (.serve unset fails) = some t) (hrunning : t.server.loop = .running) :
    t.AllKnown := by
  obtain ⟨hstep, hflight⟩ := step_server hs
  rw [Server.nextFlight] at hflight
  have hS := hW.started.handshake
  obtain ⟨hsrunning, h, rest, hpending, ⟨hready, hskip⟩ | ⟨hserves, hcall⟩⟩ :=
    Server.serve_cases hstep
  · have htakes : s.server.takes host unset = false := by simp [Server.takes, hpending, hready]
    have hlist : t.server.handlers = s.server.handlers := by
      rw [hskip, Server.handlers_proceed, ← Server.handlers_of_pending hpending]
    rw [htakes] at hflight
    exact allKnown_stays hA (fun h' hh' => hlist ▸ hh') (hskip ▸ rfl) hflight
  · have hmem := Server.mem_handlers_of_pending hpending
    have hstop := (Server.accepts_call hpending hrunning hcall).1
    have htakes : s.server.takes host unset = true ↔ h.socket = .aux ∧
        (h.handler = .handleAux ∨ h.handler = .handlePreinit ∧ s.server.FindsMagic host unset h) :=
      Server.takes_of_serves hserves
    by_cases haux : h.handler = .handleAux
    · have hsocket := hS.aux_of_mem hmem haux
      rw [htakes.mpr ⟨hsocket, .inl haux⟩, if_pos rfl] at hflight
      rw [Server.call, haux] at hcall
      exact allKnown_handleAux code hA hW hpending (haux ▸ hserves) hsocket hcall hrunning hflight
    by_cases hfound : h.handler = .handlePreinit ∧ s.server.FindsMagic host unset h
    · obtain ⟨hfun, hfound⟩ := hfound
      have hown := hW.started.fresh.ownMagic (e := .serve unset fails) hS hsent
      have hsocket := hS.aux_of_magic hsrunning hmem hfun
        (fun n hn => hown unset fails h n rfl (hfun ▸ hserves) hn) hfound
      rw [htakes.mpr ⟨hsocket, .inr ⟨hfun, hfound⟩⟩, if_pos rfl] at hflight
      rw [Server.call, hfun] at hcall
      exact allKnown_handlePreinit hA hfound hcall hstop hflight
    · have hnot : s.server.takes host unset = false := by
        rw [Bool.eq_false_iff, ne_eq, htakes]
        tauto
      rw [hnot] at hflight
      rcases Server.handlers_call hpending hrunning hcall haux fun hfun hmagic =>
        hfound ⟨hfun, hmagic⟩ with hsub | ⟨hfun, hinbox, hclosed, hlist⟩
      · exact allKnown_stays hA hsub hstop hflight
      · have hgone := ho.stays unset fails h rfl (hfun ▸ hserves) hinbox hclosed
        have hswitched := hS.after hsrunning hmem (by simp [hfun]) (by simp [hfun])
        exact allKnown_leaves hA hpending hlist hgone hswitched.not_waiting hstop hflight

theorem allKnown_step (hA : s.AllKnown) (hW : s.Watched host) (hsent : s.server.NoMagicSent host)
    (ho : s.Orderly e) (hs : s.step host code e = some t) (hrunning : t.server.loop = .running) :
    t.AllKnown := by
  by_cases hserve : ∃ unset fails, e = .serve unset fails
  · obtain ⟨unset, fails, rfl⟩ := hserve
    exact allKnown_serve hA hW hsent ho hs hrunning
  · have hother : ∀ unset fails, e ≠ .serve unset fails := fun unset fails he =>
      hserve ⟨unset, fails, he⟩
    obtain ⟨hstep, hflight⟩ := step_server hs
    have hlist := (Server.between_step hW.started.order.intact.auxOpen hstep hother).handlers
    have hwaiting : s.server.Waiting → t.server.Waiting := by
      rw [Server.Waiting, Server.Waiting, hlist]
      exact id
    have hknown : ∀ v, s.server.Known v → t.server.Known v := fun v hv =>
      hv.mono (Server.stopSent_between hstep hother) fun h hh hid => ⟨h, hlist ▸ hh, hid⟩
    cases e with
    | serve unset fails => exact absurd rfl (hother unset fails)
    | stop =>
        refine hA.append hflight hwaiting hknown (.inl ⟨rfl, ?_⟩) (.inl rfl)
        simp only [Server.step, Option.ite_none_left_eq_some, Option.some.injEq] at hstep
        rw [← hstep.2]
    | disconnect id =>
        refine hA.append hflight hwaiting hknown ?_ (.inr (ho.once id rfl))
        simp only [Server.step, Option.ite_none_right_eq_some] at hstep
        obtain ⟨h, hh, hid, hfun⟩ := hstep.1
        refine .inr ⟨?_, h, hlist ▸ hh, hid⟩
        simp only [Server.origin, ne_eq, Option.map_eq_none_iff, List.find?_eq_none, not_forall]
        exact ⟨h, hh, by simp [hid, hfun]⟩
    | connect | send | close | select | selectFails =>
        exact hA.keep hflight hwaiting fun v _ => hknown v

/-- What `handle_aux` receives next. -/
theorem receivesPresentId_of_allKnown (hA : s.AllKnown) (hW : s.Watched host)
    (hs : s.step host code e = some t) : ReceivesPresentId host s.server e := by
  rintro unset fails h rfl hh
  obtain ⟨rest, hcall⟩ := Server.handleAux_of_serves hh (step_server hs).1
  have hmem : h ∈ s.server.handlers := List.mem_append_right _ (List.mem_of_mem_head? hh.next)
  have hS := hW.started.handshake
  have hsocket := hS.aux_of_mem hmem hh.handler
  have hswitched := hS.after hh.running hmem (by simp [hh.handler]) (by simp [hh.handler])
  cases hvalues : s.flight with
  | nil =>
      -- nothing is on its way, and so the turn would wait
      have hinbox := hW.auxInbox
      rw [hvalues, ← hsocket] at hinbox
      have hopen := hW.started.order.intact.auxOpen
      rw [← hsocket] at hopen
      simp [Server.handleAux, hinbox, hopen, Flight.bytes] at hcall
  | cons v flight =>
      obtain ⟨-, hvalue, hresult⟩ := receivedId_of_flight hW.inv hh hsocket hvalues unset
      rw [hvalue, hresult]
      rcases hA.values v (by rw [hvalues]; exact List.mem_cons_self) with
        ⟨-, hwaiting⟩ | ⟨hcode, hstop⟩ | ⟨-, hknown⟩
      · exact absurd hwaiting hswitched.not_waiting
      · exact .inr ⟨hstop, .inr (by rw [hcode])⟩
      · exact .inl ⟨by decide, hknown⟩

/-- The run of the server beside the values on their way is a run of the server. -/
theorem along_of_tracked {P : Server → Event → Prop} {events : List Event}
    (h : Along (Tracked.step host code) (fun s e => P s.server e) s events) :
    Along (Server.step host code) P s.server events := by
  induction events generalizing s with
  | nil => trivial
  | cons e events ih =>
      refine ⟨h.1, fun m hm => ?_⟩
      have hstep : s.step host code e = some ⟨m, s.server.nextFlight host s.flight e⟩ := by
        rw [step, hm]
        rfl
      exact ih (h.2 _ hstep)

end Tracked

open Tracked in
/-- While every session calls `disconnect` once, and none is removed at the end of its stream with
its id on its way, `handle_aux` gets no id but those of handlers in the list, and the stop code. -/
theorem receivesPresentId_of_orderly {host : ByteOrder} {code : Surroundings} {early : ℕ}
    {events : List Event} {t : Tracked}
    (hrun : run (Tracked.step host code) (.init host early) events = some t)
    (hsent : t.server.NoMagicSent host)
    (horderly : Along (Tracked.step host code) Orderly (.init host early) events) :
    Along (Server.step host code) (ReceivesPresentId host) (.init host early) events := by
  have hmagic := along_server (s := .init host early)
    (Server.along_noMagicSent (Server.started_init host early).order (server_run hrun) hsent)
  apply along_of_tracked (s := .init host early)
  refine Along.of_run (fun s => s.Watched host ∧ (s.server.loop = .running → s.AllKnown)) ?_
    ⟨watched_init host early, fun _ => allKnown_init host early⟩ (hmagic.and horderly) hrun
  intro s e m hI hP hs
  refine ⟨⟨watched_step hI.1 hP.1 hs, fun hrunning => ?_⟩, ?_⟩
  · have hbefore := hI.2 (running_of_step (step_server hs).1 hrunning)
    exact allKnown_step hbefore hI.1 hP.1 hP.2 hs hrunning
  · intro unset fails h he hh
    exact receivesPresentId_of_allKnown (hI.2 hh.running) hI.1 hs unset fails h he hh

end CohesionIpc.Sockets
