import CohesionIpc.Model.Sockets.Server
import Mathlib.Data.List.Nodup

/-! What the loop keeps of every connection: bytes are taken by the one handler that has its
socket, and a session takes them frame by frame. -/

namespace CohesionIpc.Sockets

/-! ## One connection -/

namespace Connection

/-- Nobody has received anything from the connection. -/
structure Untouched (k : Connection) : Prop where
  created : k.created = 0
  log : k.log = []
  inbox : k.inbox = k.sent

/-- The session has got the frames of the bytes received so far. -/
def Flowing (k : Connection) : Prop :=
  ∃ ps : List (List UInt8), (∀ p ∈ ps, p.length < 2 ^ 32) ∧ k.log = ps.map .message ∧
    k.sent = ps.flatMap (framing .bigEndian).frame ++ k.inbox

/-- The session has got every frame of the stream, and then one `disconnect`. -/
def Ended (k : Connection) : Prop :=
  k.closed ∧ k.log = ((framing .bigEndian).frames k.sent).map .message ++ [.disconnect]

variable {k : Connection}

theorem Untouched.flowing (h : k.Untouched) : k.Flowing :=
  ⟨[], fun _ hp => absurd hp List.not_mem_nil, h.log, h.inbox.symm⟩

theorem Flowing.frames (h : k.Flowing) : ∃ ps : List (List UInt8), k.log = ps.map .message ∧
    (framing .bigEndian).frames k.sent = ps ++ (framing .bigEndian).frames k.inbox := by
  obtain ⟨ps, hps, hlog, hsent⟩ := h
  refine ⟨ps, hlog, ?_⟩
  rw [hsent, (framing .bigEndian).frames_flatMap_append hps]

theorem Flowing.residue (h : k.Flowing) :
    (framing .bigEndian).residue k.sent = (framing .bigEndian).residue k.inbox := by
  obtain ⟨ps, hps, -, hsent⟩ := h
  rw [hsent, (framing .bigEndian).residue_flatMap_append hps]

/-- The session gets the frame in front. -/
theorem Flowing.message (h : k.Flowing) {p rest : List UInt8}
    (hnext : (framing .bigEndian).next? k.inbox = some (p, rest)) :
    Flowing { k with inbox := rest, log := k.log ++ [.message p] } := by
  obtain ⟨ps, hps, hlog, hsent⟩ := h
  obtain ⟨hp, hinbox⟩ := (framing .bigEndian).next?_eq_some.mp hnext
  refine ⟨ps ++ [p], ?_, ?_, ?_⟩
  · intro q hq
    rcases List.mem_append.mp hq with hq | hq
    · exact hps q hq
    · rw [List.mem_singleton.mp hq]
      exact hp
  · simp [hlog]
  · simp [hsent, hinbox]

/-- At the end of the stream it gets a `disconnect`. -/
theorem Flowing.disconnect (h : k.Flowing) (hclosed : k.closed) (hinbox : k.inbox = []) :
    Ended { k with log := k.log ++ [.disconnect] } := by
  obtain ⟨ps, hlog, hframes⟩ := h.frames
  rw [hinbox, LengthPrefix.frames_nil, List.append_nil] at hframes
  exact ⟨hclosed, by simp only [hlog, hframes]⟩

/-- What may happen to a connection while nobody looks at it. -/
structure Evolves (k k' : Connection) : Prop where
  created : k'.created = k.created
  log : k'.log = k.log
  untouched : k.Untouched → k'.Untouched
  flowing : k.Flowing → k'.Flowing
  ended : k.Ended → k'.Ended

theorem evolves_receive (hopen : k.closed = false) (bytes : List UInt8) :
    k.Evolves (k.receive bytes) := by
  refine ⟨rfl, rfl, ?_, ?_, ?_⟩
  · intro h
    exact ⟨h.created, h.log, by simp [receive, h.inbox]⟩
  · rintro ⟨ps, hps, hlog, hsent⟩
    exact ⟨ps, hps, hlog, by simp [receive, hsent]⟩
  · rintro ⟨hclosed, -⟩
    rw [hopen] at hclosed
    cases hclosed

theorem evolves_close : k.Evolves { k with closed := true } :=
  ⟨rfl, rfl, fun h => ⟨h.created, h.log, h.inbox⟩, id, fun h => ⟨rfl, h.2⟩⟩

theorem Evolves.refl (k : Connection) : k.Evolves k := ⟨rfl, rfl, id, id, id⟩

end Connection

/-! ## All connections -/

/-- The connections that `watch` picks out are in order, whatever becomes of the others. -/
structure Intact (watch : Socket → Prop) (conns : Socket → Connection) (clients : ℕ)
    (backlog : List Socket) (handlers : List Handler) : Prop where
  nodup : (handlers.map Handler.socket ++ backlog).Nodup
  known : ∀ n, Socket.client n ∈ handlers.map Handler.socket ++ backlog → n < clients
  unknown : ∀ n, clients ≤ n → (conns (.client n)).Untouched
  waiting : ∀ c ∈ backlog, (conns c).Untouched
  auxOpen : (conns .aux).closed = false
  session : ∀ h ∈ handlers, h.handler = .handleSession → watch h.socket →
    (conns h.socket).Flowing
  created : ∀ c, watch c → 0 < (conns c).created → (conns c).Flowing ∨ (conns c).Ended

/-- Either nothing has been recognised, and the acceptor is followed by connections nobody
has taken anything from, or the handlers have been switched. -/
def Staged (conns : Socket → Connection) (handlers : List Handler) : Prop :=
  (∃ first others, handlers = first :: others ∧ first.handler = .acceptPreinit ∧
    ∀ h ∈ others, h.handler = .handlePreinit ∧ (conns h.socket).Untouched) ∨
  ∀ h ∈ handlers, h.handler ≠ .acceptPreinit ∧ h.handler ≠ .handlePreinit ∧
    (h.handler = .handleAux → (conns h.socket).created = 0)

variable {watch : Socket → Prop} {conns : Socket → Connection} {clients : ℕ}
  {backlog : List Socket} {handlers handlers' : List Handler} {c : Socket} {k' : Connection}

/-- What holds of a connection holds of it after a change of one connection that keeps it. -/
theorem of_update {P : Connection → Prop} (hk : P (conns c) → P k') {d : Socket}
    (h : P (conns d)) : P (Function.update conns c k' d) := by
  by_cases hd : d = c
  · rw [hd, Function.update_self]
    exact hk (hd ▸ h)
  · rwa [Function.update_of_ne hd]

theorem Intact.evolve (hI : Intact watch conns clients backlog handlers)
    (hk : (conns c).Evolves k') (haux : c = .aux → k'.closed = false) :
    Intact watch (Function.update conns c k') clients backlog handlers := by
  refine ⟨hI.nodup, hI.known, ?_, ?_, ?_, ?_, ?_⟩
  · exact fun n hn => of_update hk.untouched (hI.unknown n hn)
  · exact fun d hd => of_update hk.untouched (hI.waiting d hd)
  · by_cases hc : c = .aux
    · rw [hc, Function.update_self]
      exact haux hc
    · rw [Function.update_of_ne (Ne.symm hc)]
      exact hI.auxOpen
  · exact fun h hh hfun hw => of_update hk.flowing (hI.session h hh hfun hw)
  · intro d hw hpos
    rw [field_update Connection.created hk.created] at hpos
    rcases hI.created d hw hpos with hflow | hend
    · exact .inl (of_update hk.flowing hflow)
    · exact .inr (of_update hk.ended hend)

theorem Staged.evolve (hS : Staged conns handlers) (hk : (conns c).Evolves k') :
    Staged (Function.update conns c k') handlers := by
  rcases hS with ⟨first, others, hlist, hfirst, hothers⟩ | hswitched
  · refine .inl ⟨first, others, hlist, hfirst, fun h hh => ⟨(hothers h hh).1, ?_⟩⟩
    exact of_update hk.untouched (hothers h hh).2
  · refine .inr fun h hh => ⟨(hswitched h hh).1, (hswitched h hh).2.1, fun hfun => ?_⟩
    rw [field_update Connection.created hk.created]
    exact (hswitched h hh).2.2 hfun

theorem Intact.connect (hI : Intact watch conns clients backlog handlers) :
    Intact watch conns (clients + 1) (backlog ++ [.client clients]) handlers := by
  refine ⟨?_, ?_, ?_, ?_, hI.auxOpen, hI.session, hI.created⟩
  · rw [← List.append_assoc, List.nodup_append']
    refine ⟨hI.nodup, List.nodup_singleton _, ?_⟩
    intro c hc hnew
    rw [List.mem_singleton.mp hnew] at hc
    exact absurd (hI.known clients hc) (lt_irrefl _)
  · intro n hn
    rw [← List.append_assoc, List.mem_append, List.mem_singleton] at hn
    rcases hn with hn | hn
    · exact (hI.known n hn).trans (Nat.lt_succ_self _)
    · cases hn
      exact Nat.lt_succ_self _
  · exact fun n hn => hI.unknown n (Nat.le_of_succ_le hn)
  · intro c hc
    rcases List.mem_append.mp hc with hc | hc
    · exact hI.waiting c hc
    · rw [List.mem_singleton.mp hc]
      exact hI.unknown clients le_rfl

/-- No other handler has the socket of a handler of the list. -/
theorem Intact.socket_notMem_of_middle (hI : Intact watch conns clients backlog handlers)
    {front rest : List Handler} {h : Handler} (hlist : handlers = front ++ h :: rest) :
    h.socket ∉ (front ++ rest).map Handler.socket := by
  have hnodup := (List.nodup_append'.mp hI.nodup).1
  rw [hlist, List.map_append, List.map_cons, List.nodup_middle, List.nodup_cons] at hnodup
  rw [List.map_append]
  exact hnodup.1

/-- A connection is accepted, with or without a session. -/
theorem Intact.accept {more : List Socket} (hI : Intact watch conns clients (c :: more) handlers)
    {h : Handler} (hsocket : h.socket = c) (hclosed : k'.closed = (conns c).closed)
    (hsession : h.handler = .handleSession → k'.Flowing) (hcreated : 0 < k'.created → k'.Flowing) :
    Intact watch (Function.update conns c k') clients more (handlers ++ [h]) := by
  have hlist : (handlers ++ [h]).map Handler.socket ++ more =
      handlers.map Handler.socket ++ c :: more := by
    simp [hsocket]
  have happart : ∀ d ∈ handlers.map Handler.socket, d ≠ c := by
    rintro d hd rfl
    exact (List.nodup_append'.mp hI.nodup).2.2 hd List.mem_cons_self
  have hmore : c ∉ more :=
    (List.nodup_cons.mp (List.nodup_append'.mp hI.nodup).2.1).1
  refine ⟨by rw [hlist]; exact hI.nodup, by rw [hlist]; exact hI.known, ?_, ?_, ?_, ?_, ?_⟩
  · intro n hn
    have hne : Socket.client n ≠ c := by
      rintro rfl
      have hlt := hI.known n (List.mem_append_right _ List.mem_cons_self)
      omega
    rw [Function.update_of_ne hne]
    exact hI.unknown n hn
  · intro d hd
    have hne : d ≠ c := fun heq => hmore (heq ▸ hd)
    rw [Function.update_of_ne hne]
    exact hI.waiting d (List.mem_cons_of_mem _ hd)
  · exact (field_update Connection.closed hclosed _).trans hI.auxOpen
  · intro h' hh' hfun hw
    rcases List.mem_append.mp hh' with hold | hnew
    · rw [Function.update_of_ne (happart _ (List.mem_map_of_mem hold))]
      exact hI.session h' hold hfun hw
    · rw [List.mem_singleton.mp hnew] at hfun ⊢
      rw [hsocket, Function.update_self]
      exact hsession hfun
  · intro d hw hpos
    by_cases hd : d = c
    · rw [hd, Function.update_self] at hpos ⊢
      exact .inl (hcreated hpos)
    · rw [Function.update_of_ne hd] at hpos ⊢
      exact hI.created d hw hpos

/-- The handler `h` takes bytes from its connection; it or other handlers may leave the
list. -/
theorem Intact.read (hI : Intact watch conns clients backlog handlers) {h : Handler}
    (hh : h ∈ handlers) (hsub : handlers'.Sublist handlers)
    (hclosed : k'.closed = (conns h.socket).closed)
    (hsession : ∀ h' ∈ handlers', h'.handler = .handleSession → h'.socket = h.socket →
      watch h.socket → k'.Flowing)
    (hcreated : watch h.socket → 0 < k'.created → k'.Flowing ∨ k'.Ended) :
    Intact watch (Function.update conns h.socket k') clients backlog handlers' := by
  have hmem : h.socket ∈ handlers.map Handler.socket := List.mem_map_of_mem hh
  have hlist : (handlers'.map Handler.socket ++ backlog).Sublist
      (handlers.map Handler.socket ++ backlog) := (hsub.map _).append_right _
  refine ⟨hI.nodup.sublist hlist, fun n hn => hI.known n (hlist.subset hn), ?_, ?_, ?_, ?_, ?_⟩
  · intro n hn
    have hne : Socket.client n ≠ h.socket := by
      intro heq
      have hlt := hI.known n (List.mem_append_left _ (heq ▸ hmem))
      omega
    rw [Function.update_of_ne hne]
    exact hI.unknown n hn
  · intro d hd
    have hne : d ≠ h.socket := by
      rintro rfl
      exact (List.nodup_append'.mp hI.nodup).2.2 hmem hd
    rw [Function.update_of_ne hne]
    exact hI.waiting d hd
  · exact (field_update Connection.closed hclosed _).trans hI.auxOpen
  · intro h' hh' hfun hw
    by_cases heq : h'.socket = h.socket
    · rw [heq, Function.update_self]
      exact hsession h' hh' hfun heq (heq ▸ hw)
    · rw [Function.update_of_ne heq]
      exact hI.session h' (hsub.subset hh') hfun hw
  · intro d hw hpos
    by_cases hd : d = h.socket
    · rw [hd, Function.update_self] at hpos ⊢
      exact hcreated (hd ▸ hw) hpos
    · rw [Function.update_of_ne hd] at hpos ⊢
      exact hI.created d hw hpos

/-! ## The switch of `handle_preinit` -/

/-- A handler that has been looked at is on `handle_aux`, if it is the one that is running,
or has a session. Where the factory raises, the others are as they were. -/
theorem mem_assign {code : Surroundings} {self : Handler} {hs : List Handler} {h : Handler}
    (hh : h ∈ (Server.assign code self hs).1) :
    (h.handler = .handleAux ∧ h.socket = self.socket) ∨
      (h.handler = .handleSession ∧ h.socket ∈ (Server.assign code self hs).2.1) ∨
        ((Server.assign code self hs).2.2 ∧ h ∈ hs) := by
  induction hs with
  | nil => exact absurd hh List.not_mem_nil
  | cons x xs ih =>
      rw [Server.assign] at hh ⊢
      split at hh
      · rename_i hself
        rw [if_pos hself]
        rcases List.mem_cons.mp hh with rfl | hh
        · exact .inl ⟨rfl, hself⟩
        · rcases ih hh with h₁ | h₂ | ⟨hraised, hmem⟩
          · exact .inl h₁
          · exact .inr (.inl h₂)
          · exact .inr (.inr ⟨hraised, List.mem_cons_of_mem _ hmem⟩)
      · rename_i hself
        rw [if_neg hself]
        split at hh
        · rename_i hraises
          rw [if_pos hraises]
          exact .inr (.inr ⟨rfl, hh⟩)
        · rename_i hraises
          rw [if_neg hraises]
          rcases List.mem_cons.mp hh with rfl | hh
          · exact .inr (.inl ⟨rfl, List.mem_cons_self⟩)
          · rcases ih hh with h₁ | ⟨hfun, hmem⟩ | ⟨hraised, hmem⟩
            · exact .inl h₁
            · exact .inr (.inl ⟨hfun, List.mem_cons_of_mem _ hmem⟩)
            · exact .inr (.inr ⟨hraised, List.mem_cons_of_mem _ hmem⟩)

section

variable {first h : Handler} {others : List Handler} (code : Surroundings)
  (hothers : ∀ h ∈ others, h.handler = .handlePreinit ∧ (conns h.socket).Untouched)
  (inbox : List UInt8)
include hothers

theorem flowing_switchedConns (hc : c ∈ (Server.assign code h others).2.1) :
    (Server.switchedConns code conns h others inbox c).Flowing := by
  obtain ⟨hmem, hne⟩ := Server.mem_sessions_assign hc
  rcases List.mem_map.mp hmem with ⟨h', hh', rfl⟩
  rw [Server.switchedConns, if_neg hne, if_pos hc]
  exact (hothers h' hh').2.flowing

theorem Intact.switch (hI : Intact watch conns clients backlog (first :: others))
    (hh : h ∈ others) :
    Intact watch (Server.switchedConns code conns h others inbox) clients backlog
      ({ first with handler := .acceptRegular } :: (Server.assign code h others).1) := by
  have hlist : ({ first with handler := .acceptRegular } ::
      (Server.assign code h others).1).map Handler.socket =
        (first :: others).map Handler.socket := by
    simp [Server.map_socket_assign]
  have hkeep : ∀ c, c ∉ (first :: others).map Handler.socket →
      Server.switchedConns code conns h others inbox c = conns c := by
    intro c hc
    have hne : c ≠ h.socket := by
      rintro rfl
      exact hc (List.mem_map_of_mem (List.mem_cons_of_mem _ hh))
    have hnot : c ∉ (Server.assign code h others).2.1 := fun hmem =>
      hc (List.mem_cons_of_mem _ (Server.mem_sessions_assign hmem).1)
    rw [Server.switchedConns, if_neg hne, if_neg hnot]
  refine ⟨by rw [hlist]; exact hI.nodup, by rw [hlist]; exact hI.known, ?_, ?_, ?_, ?_, ?_⟩
  · intro n hn
    rw [hkeep]
    · exact hI.unknown n hn
    · intro hmem
      have hlt := hI.known n (List.mem_append_left _ hmem)
      omega
  · intro c hc
    rw [hkeep c fun hmem => (List.nodup_append'.mp hI.nodup).2.2 hmem hc]
    exact hI.waiting c hc
  · rw [Server.switchedConns]
    split
    · exact hI.auxOpen
    · split <;> exact hI.auxOpen
  · intro h' hh' hfun _
    rcases List.mem_cons.mp hh' with rfl | hh'
    · cases hfun
    · rcases mem_assign hh' with ⟨haux, -⟩ | ⟨-, hmem⟩ | ⟨-, hmem⟩
      · rw [haux] at hfun
        cases hfun
      · exact flowing_switchedConns code hothers inbox hmem
      · rw [(hothers h' hmem).1] at hfun
        cases hfun
  · intro c hw hpos
    by_cases hc : c ∈ (Server.assign code h others).2.1
    · exact .inl (flowing_switchedConns code hothers inbox hc)
    · by_cases hself : c = h.socket
      · rw [Server.switchedConns, if_pos hself, hself] at hpos
        exact absurd (hothers h hh).2.created (Nat.pos_iff_ne_zero.mp hpos)
      · rw [Server.switchedConns, if_neg hself, if_neg hc] at hpos ⊢
        exact hI.created c hw hpos

/-- Unless the factory raises, all handlers have been switched. -/
theorem Staged.switch (hh : h ∈ others) (hquiet : (Server.assign code h others).2.2 = false) :
    Staged (Server.switchedConns code conns h others inbox)
      ({ first with handler := .acceptRegular } :: (Server.assign code h others).1) := by
  right
  intro h' hh'
  rcases List.mem_cons.mp hh' with rfl | hh'
  · exact ⟨by simp, by simp, by simp⟩
  · rcases mem_assign hh' with ⟨haux, hsocket⟩ | ⟨hfun, -⟩ | ⟨hraised, -⟩
    · refine ⟨by simp [haux], by simp [haux], fun _ => ?_⟩
      rw [Server.switchedConns, if_pos hsocket, hsocket]
      exact (hothers h hh).2.created
    · exact ⟨by simp [hfun], by simp [hfun], by simp [hfun]⟩
    · rw [hquiet] at hraised
      cases hraised

end

/-! ## Steps -/

/-- The stream has ended inside a frame. -/
def Connection.CutShort (k : Connection) : Prop :=
  k.closed ∧ k.inbox ≠ [] ∧ (framing .bigEndian).next? k.inbox = none

/-- No session that `watch` picks out is served when its stream has ended inside a frame. -/
def NotCutShort (watch : Socket → Prop) (s : Server) (e : Event) : Prop :=
  ∀ unset fails h, e = .serve unset fails → s.Serves .handleSession h → watch h.socket →
    ¬ (s.conns h.socket).CutShort

namespace Server

/-- The watched connections are in order, and so are the handlers while the loop runs. -/
structure InOrder (watch : Socket → Prop) (s : Server) : Prop where
  intact : Intact watch s.conns s.clients s.backlog s.handlers
  staged : s.loop = .running → Staged s.conns s.handlers

variable {host : ByteOrder} {code : Surroundings} {s t : Server} {e : Event} {unset : UInt32}
  {fails : Bool} {h : Handler} {rest : List Handler}

theorem inOrder_init (watch : Socket → Prop) (host : ByteOrder) (early : ℕ) :
    (init host early).InOrder watch := by
  have huntouched : ∀ c, ((init host early).conns c).Untouched := by
    intro c
    simp only [init]
    split <;> exact ⟨rfl, rfl, rfl⟩
  refine ⟨⟨?_, ?_, fun n _ => huntouched _, fun c _ => huntouched c, rfl, ?_, ?_⟩, fun _ => ?_⟩
  · have hclients : ((List.range early).map Socket.client).Nodup :=
      List.nodup_range.map fun a b hab => Socket.client.inj hab
    simp [init, handlers, List.nodup_append', hclients]
  · intro n hn
    simpa [init, handlers] using hn
  · intro h _ _ _
    exact (huntouched h.socket).flowing
  · intro c _ _
    exact .inl (huntouched c).flowing
  · exact .inl ⟨_, [], rfl, rfl, fun h hh => absurd hh List.not_mem_nil⟩

/-- A connection changes from outside. -/
theorem InOrder.evolve (hI : s.InOrder watch) {c : Socket} {f : Connection → Connection}
    (hk : (s.conns c).Evolves (f (s.conns c))) (haux : c = .aux → (f (s.conns c)).closed = false) :
    (s.onConnection c f).InOrder watch :=
  ⟨hI.intact.evolve hk haux, fun hrunning => (hI.staged hrunning).evolve hk⟩

theorem mem_handlers_of_pending (hpending : s.pending = h :: rest) : h ∈ s.handlers := by
  rw [handlers_of_pending hpending]
  simp

/-- The handlers have been switched when one of them is on a function of that stage. -/
theorem InOrder.switched (hI : s.InOrder watch) (hrunning : s.loop = .running) (hh : h ∈ s.handlers)
    (hpre : h.handler ≠ .acceptPreinit) (hpre' : h.handler ≠ .handlePreinit) :
    ∀ h' ∈ s.handlers, h'.handler ≠ .acceptPreinit ∧ h'.handler ≠ .handlePreinit ∧
      (h'.handler = .handleAux → (s.conns h'.socket).created = 0) := by
  rcases hI.staged hrunning with ⟨first, others, hlist, hfirst, hothers⟩ | hswitched
  · rw [hlist] at hh
    rcases List.mem_cons.mp hh with rfl | hh
    · exact absurd hfirst hpre
    · exact absurd (hothers h hh).1 hpre'
  · exact hswitched

theorem inOrder_acceptPreinit (hI : s.InOrder watch) (hrunning : s.loop = .running)
    (hpending : s.pending = h :: rest) (hh : h.handler = .acceptPreinit)
    (hs : s.acceptPreinit fails h rest = some t) : t.InOrder watch := by
  rcases acceptPreinit_cases hs with rfl | ⟨c, more, hbacklog, rfl⟩
  · exact ⟨hI.intact, fun hr => by cases hr⟩
  · have hintact := hI.intact
    rw [hbacklog] at hintact
    have hc : (s.conns c).Untouched := hintact.waiting c List.mem_cons_self
    have haccept : Intact watch (Function.update s.conns c (s.conns c)) s.clients more
        (s.handlers ++ [⟨s.nextId, .handlePreinit, c⟩]) :=
      hintact.accept rfl rfl (by simp) fun _ => hc.flowing
    rw [Function.update_eq_self] at haccept
    have hlist : (proceed { s with backlog := more, nextId := s.nextId + 1 } h
        (rest ++ [⟨s.nextId, .handlePreinit, c⟩])).handlers =
          s.handlers ++ [⟨s.nextId, .handlePreinit, c⟩] := by
      simp [handlers_of_pending hpending]
    refine ⟨by rw [hlist]; exact haccept, fun _ => ?_⟩
    rw [hlist]
    rcases hI.staged hrunning with ⟨first, others, hfirst, hfun, hothers⟩ | hswitched
    · refine .inl ⟨first, others ++ [⟨s.nextId, .handlePreinit, c⟩], ?_, hfun, ?_⟩
      · rw [hfirst, List.cons_append]
      · intro h' hh'
        rcases List.mem_append.mp hh' with hh' | hh'
        · exact hothers h' hh'
        · rw [List.mem_singleton.mp hh']
          exact ⟨rfl, hc⟩
    · exact absurd hh (hswitched h (mem_handlers_of_pending hpending)).1

theorem inOrder_acceptRegular (hI : s.InOrder watch) (hrunning : s.loop = .running)
    (hpending : s.pending = h :: rest) (hh : h.handler = .acceptRegular)
    (hs : s.acceptRegular code fails h rest = some t) : t.InOrder watch := by
  rcases acceptRegular_spec hpending hs with rfl | ⟨c, more, hbacklog, hlist, hconns, hrest⟩
  · exact ⟨hI.intact, fun hr => by cases hr⟩
  · have hintact := hI.intact
    rw [hbacklog] at hintact
    have hflow : Connection.Flowing { s.conns c with created := (s.conns c).created + 1 } :=
      (hintact.waiting c List.mem_cons_self).flowing
    have haccept : Intact watch (Function.update s.conns c
        { s.conns c with created := (s.conns c).created + 1 }) s.clients more
          (s.handlers ++ [⟨s.nextId, .handleSession, c⟩]) :=
      hintact.accept rfl rfl (fun _ => hflow) fun _ => hflow
    have hswitched := hI.switched hrunning (mem_handlers_of_pending hpending) (by simp [hh])
      (by simp [hh])
    have hapart : ∀ h' ∈ s.handlers, h'.socket ≠ c := by
      rintro h' hh' rfl
      exact (List.nodup_append'.mp hintact.nodup).2.2 (List.mem_map_of_mem hh')
        List.mem_cons_self
    refine ⟨by rw [hlist, hconns, hrest.1, hrest.2]; exact haccept, fun _ => .inr ?_⟩
    intro h' hh'
    rw [hlist] at hh'
    rcases List.mem_append.mp hh' with hold | hnew
    · refine ⟨(hswitched h' hold).1, (hswitched h' hold).2.1, fun hfun => ?_⟩
      rw [hconns, Function.update_of_ne (hapart h' hold)]
      exact (hswitched h' hold).2.2 hfun
    · rw [List.mem_singleton.mp hnew]
      exact ⟨by simp, by simp, by simp⟩

theorem inOrder_proceed (hI : s.InOrder watch) (hpending : s.pending = h :: rest) :
    (s.proceed h rest).InOrder watch := by
  have hlist : (s.proceed h rest).handlers = s.handlers := by
    rw [handlers_proceed, handlers_of_pending hpending]
  refine ⟨?_, fun hr => ?_⟩
  · rw [hlist]
    exact hI.intact
  · rw [hlist]
    exact hI.staged hr

theorem inOrder_handlePreinit (hI : s.InOrder watch) (hrunning : s.loop = .running)
    (hpending : s.pending = h :: rest) (hh : h.handler = .handlePreinit)
    (hs : s.handlePreinit host code unset h rest = some t) : t.InOrder watch := by
  rcases handlePreinit_cases hs with ⟨rfl, -⟩ | ⟨first, others, inbox, -, -, hlist, hlist', hconns,
    hclients, hbacklog, hloop⟩
  · exact inOrder_proceed hI hpending
  · have hmem := mem_handlers_of_pending hpending
    rcases hI.staged hrunning with ⟨first', others', hstage, hfirst, hothers⟩ | hswitched
    · rw [hlist, List.cons.injEq] at hstage
      rcases hstage with ⟨rfl, rfl⟩
      have hself : h ∈ others := by
        rw [hlist] at hmem
        rcases List.mem_cons.mp hmem with rfl | hmem
        · rw [hfirst] at hh
          cases hh
        · exact hmem
      have hintact := hI.intact
      rw [hlist] at hintact
      refine ⟨?_, fun hr => ?_⟩
      · rw [hlist', hconns, hclients, hbacklog]
        exact hintact.switch code hothers inbox hself
      · rw [hlist', hconns]
        apply Staged.switch code hothers inbox hself
        by_contra hraised
        rw [Bool.not_eq_false] at hraised
        rw [hloop, if_pos hraised] at hr
        cases hr
    · exact absurd hh (hswitched h hmem).2.1

/-- A session takes its handler out of the list or leaves the list alone. -/
theorem served_sublist (hpending : s.pending = h :: rest)
    (hs : s.handleSession host code unset h rest = some t) : t.handlers.Sublist s.handlers := by
  rcases handleSession_cases hs with ⟨outcome, rfl, hcases⟩
  rcases hcases with ⟨p, -, -, hstatus⟩ | ⟨-, -, ⟨-, -, -, hstatus⟩ | ⟨-, -, hstatus⟩⟩
  · rw [served_proceed hpending hstatus]
  · rw [(served_removeThis hstatus).1, handlers_of_pending hpending]
    exact List.Sublist.append_left (List.sublist_cons_self _ _) _
  · rw [served_proceed hpending hstatus]

theorem inOrder_handleSession (hI : s.InOrder watch) (hrunning : s.loop = .running)
    (hpending : s.pending = h :: rest) (hh : h.handler = .handleSession)
    (hcut : watch h.socket → ¬ (s.conns h.socket).CutShort)
    (hs : handleSession host code s unset h rest = some t) : t.InOrder watch := by
  have hmem := mem_handlers_of_pending hpending
  have hlist := handlers_of_pending hpending
  have hsub := served_sublist hpending hs
  rcases handleSession_cases hs with ⟨outcome, rfl, hcases⟩
  refine ⟨?_, fun _ => .inr ?_⟩
  · rw [served_conns, served_clients, served_backlog]
    apply hI.intact.read hmem hsub
    · rfl
    · intro h' hh' hfun heq hw
      have hflow := hI.intact.session h hmem hh hw
      rcases hcases with ⟨p, hnext, hcall, -⟩ | ⟨hnext, hclosed, ⟨-, -, -, hstatus⟩ | ⟨hinbox, -⟩⟩
      · rw [hcall]
        exact hflow.message hnext
      · -- the handler has left the list, and no other has its socket
        rw [(served_removeThis hstatus).1] at hh'
        have hapart := hI.intact.socket_notMem_of_middle hlist
        exact absurd (List.mem_map_of_mem hh') (heq ▸ hapart)
      · exact absurd ⟨hclosed, hinbox, hnext⟩ (hcut hw)
    · intro hw _
      have hflow := hI.intact.session h hmem hh hw
      rcases hcases with ⟨p, hnext, hcall, -⟩ |
        ⟨hnext, hclosed, ⟨hinbox, hcall, hstream, -⟩ | ⟨hinbox, -⟩⟩
      · rw [hcall]
        exact .inl (hflow.message hnext)
      · rw [hcall, hstream, ← hinbox]
        exact .inr (hflow.disconnect hclosed hinbox)
      · exact absurd ⟨hclosed, hinbox, hnext⟩ (hcut hw)
  · have hswitched := hI.switched hrunning hmem (by simp [hh]) (by simp [hh])
    intro h' hh'
    obtain ⟨h₁, h₂, h₃⟩ := hswitched h' (hsub.subset hh')
    refine ⟨h₁, h₂, fun hfun => ?_⟩
    rw [served_conns]
    exact (field_update Connection.created (by rfl) _).trans (h₃ hfun)

theorem inOrder_handleAux (hI : s.InOrder watch) (hrunning : s.loop = .running)
    (hpending : s.pending = h :: rest) (hh : h.handler = .handleAux)
    (hs : handleAux host s unset h rest = some t) : t.InOrder watch := by
  have hmem := mem_handlers_of_pending hpending
  have hswitched := hI.switched hrunning hmem (by simp [hh]) (by simp [hh])
  have hcreated : (s.conns h.socket).created = 0 := (hswitched h hmem).2.2 hh
  rcases handleAux_cases hpending hs with ⟨hconns, hclients, hbacklog, hsub, -⟩
  refine ⟨?_, fun _ => .inr ?_⟩
  · rw [hconns, hclients, hbacklog]
    apply hI.intact.read hmem hsub
    · rfl
    · intro h' hh' hfun heq _
      -- no session shares the socket of a handler on `handle_aux`
      have hinj := List.inj_on_of_nodup_map (List.nodup_append'.mp hI.intact.nodup).1
        (hsub.subset hh') hmem heq
      rw [hinj, hh] at hfun
      cases hfun
    · intro _ hpos
      exact absurd hcreated (Nat.pos_iff_ne_zero.mp hpos)
  · intro h' hh'
    obtain ⟨h₁, h₂, h₃⟩ := hswitched h' (hsub.subset hh')
    refine ⟨h₁, h₂, fun hfun => ?_⟩
    rw [hconns]
    exact (field_update Connection.created (by rfl) _).trans (h₃ hfun)

/-- Every step keeps the watched connections in order, unless it serves one of them that
was cut short. -/
theorem inOrder_step (hI : s.InOrder watch) (hcut : NotCutShort watch s e)
    (hs : s.step host code e = some t) : t.InOrder watch := by
  cases e with
  | connect =>
      cases hs
      exact ⟨hI.intact.connect, hI.staged⟩
  | send n bytes =>
      simp only [step, Option.ite_none_right_eq_some, Option.some.injEq] at hs
      obtain ⟨⟨-, hopen⟩, rfl⟩ := hs
      rw [Bool.not_eq_true] at hopen
      exact hI.evolve (Connection.evolves_receive hopen bytes) fun h => by cases h
  | close n =>
      simp only [step, Option.ite_none_right_eq_some, Option.some.injEq] at hs
      obtain ⟨-, rfl⟩ := hs
      exact hI.evolve Connection.evolves_close fun h => by cases h
  | disconnect id =>
      simp only [step, Option.ite_none_right_eq_some, Option.some.injEq] at hs
      obtain ⟨-, rfl⟩ := hs
      exact hI.evolve (Connection.evolves_receive hI.intact.auxOpen _) fun _ => hI.intact.auxOpen
  | stop =>
      simp only [step, Option.ite_none_left_eq_some, Option.some.injEq] at hs
      obtain ⟨-, rfl⟩ := hs
      have hnext := hI.evolve (f := (·.receive (sendScalar host 0)))
        (Connection.evolves_receive hI.intact.auxOpen _) fun _ => hI.intact.auxOpen
      exact ⟨hnext.intact, hnext.staged⟩
  | select =>
      simp only [step, Option.ite_none_right_eq_some, Option.some.injEq] at hs
      obtain ⟨⟨-, hpending, -⟩, rfl⟩ := hs
      have hlist : ∀ r, ({ s with visited := [], pending := s.visited, ready := r } :
          Server).handlers = s.handlers := by
        intro r
        simp [handlers, hpending]
      refine ⟨?_, fun hr => ?_⟩
      · rw [hlist]
        exact hI.intact
      · rw [hlist]
        exact hI.staged hr
  | selectFails =>
      simp only [step, Option.ite_none_right_eq_some, Option.some.injEq] at hs
      obtain ⟨-, rfl⟩ := hs
      exact ⟨hI.intact, fun hr => by cases hr⟩
  | serve unset fails =>
      obtain ⟨hrunning, h, rest, hpending, ⟨-, rfl⟩ | ⟨hserves, hcall⟩⟩ := serve_cases hs
      · exact inOrder_proceed hI hpending
      · simp only [call] at hcall
        cases hh : h.handler with
        | acceptPreinit =>
            rw [hh] at hcall
            exact inOrder_acceptPreinit hI hrunning hpending hh hcall
        | acceptRegular =>
            rw [hh] at hcall
            exact inOrder_acceptRegular hI hrunning hpending hh hcall
        | handlePreinit =>
            rw [hh] at hcall
            exact inOrder_handlePreinit hI hrunning hpending hh hcall
        | handleSession =>
            rw [hh] at hcall hserves
            exact inOrder_handleSession hI hrunning hpending hh
              (hcut unset fails h rfl hserves) hcall
        | handleAux =>
            rw [hh] at hcall
            exact inOrder_handleAux hI hrunning hpending hh hcall

/-! ## Between the turns -/

/-- What happens while no handler is called. -/
structure Between (s t : Server) : Prop where
  handlers : t.handlers = s.handlers
  evolves : ∀ c, (s.conns c).Evolves (t.conns c)
  sent : ∀ c, (s.conns c).sent <+: (t.conns c).sent
  backlog : ∀ c ∈ t.backlog, c ∈ s.backlog ∨ c = .client s.clients
  nextId : t.nextId = s.nextId
  raised : s.loop = .raised → t.loop = .raised

theorem between_onConnection {c : Socket} {f : Connection → Connection}
    (hk : (s.conns c).Evolves (f (s.conns c))) (hsent : (s.conns c).sent <+: (f (s.conns c)).sent) :
    s.Between (s.onConnection c f) := by
  refine ⟨rfl, ?_, ?_, fun _ h => .inl h, rfl, id⟩ <;> intro d <;> simp only [onConnection] <;>
    by_cases hd : d = c
  · rw [hd, Function.update_self]
    exact hk
  · rw [Function.update_of_ne hd]
    exact .refl _
  · rw [hd, Function.update_self]
    exact hsent
  · rw [Function.update_of_ne hd]

/-- A step that is not a turn calls no handler. -/
theorem between_step (haux : (s.conns .aux).closed = false) (hs : s.step host code e = some t)
    (hserve : ∀ unset fails, e ≠ .serve unset fails) : s.Between t := by
  cases e with
  | serve unset fails => exact absurd rfl (hserve unset fails)
  | connect =>
      cases hs
      exact ⟨rfl, fun _ => .refl _, fun _ => List.prefix_rfl, by simp, rfl, id⟩
  | send n bytes =>
      simp only [step, Option.ite_none_right_eq_some, Option.some.injEq] at hs
      rcases hs with ⟨⟨-, hopen⟩, rfl⟩
      rw [Bool.not_eq_true] at hopen
      exact between_onConnection (Connection.evolves_receive hopen bytes) (List.prefix_append _ _)
  | close n =>
      simp only [step, Option.ite_none_right_eq_some, Option.some.injEq] at hs
      rcases hs with ⟨-, rfl⟩
      exact between_onConnection Connection.evolves_close List.prefix_rfl
  | disconnect id =>
      simp only [step, Option.ite_none_right_eq_some, Option.some.injEq] at hs
      rcases hs with ⟨-, rfl⟩
      exact between_onConnection (Connection.evolves_receive haux _) (List.prefix_append _ _)
  | stop =>
      simp only [step, Option.ite_none_left_eq_some, Option.some.injEq] at hs
      rcases hs with ⟨-, rfl⟩
      have hsend : s.Between (s.onConnection .aux (·.receive (sendScalar host 0))) :=
        between_onConnection (Connection.evolves_receive haux _) (List.prefix_append _ _)
      exact ⟨hsend.handlers, hsend.evolves, hsend.sent, hsend.backlog, hsend.nextId, hsend.raised⟩
  | select =>
      simp only [step, Option.ite_none_right_eq_some, Option.some.injEq] at hs
      rcases hs with ⟨⟨-, hpending, -⟩, rfl⟩
      exact ⟨by simp [handlers, hpending], fun _ => .refl _, fun _ => List.prefix_rfl,
        fun _ h => .inl h, rfl, id⟩
  | selectFails =>
      simp only [step, Option.ite_none_right_eq_some, Option.some.injEq] at hs
      rcases hs with ⟨⟨hrunning, -⟩, rfl⟩
      refine ⟨rfl, fun _ => .refl _, fun _ => List.prefix_rfl, fun _ h => .inl h, rfl, ?_⟩
      rw [hrunning]
      exact fun h => by cases h

end Server

end CohesionIpc.Sockets
