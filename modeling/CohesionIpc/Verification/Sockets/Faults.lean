import CohesionIpc.Model.Strmd.ServerSession
import CohesionIpc.Verification.Sockets.Sessions

/-! An exception ends the loop for everybody, but what a session has got by then depends on
the bytes of its own client only. -/

namespace CohesionIpc.Sockets

open Transition

namespace Connection

/-- The messages that the session of the connection has got. -/
def messages (k : Connection) : List (List UInt8) :=
  k.log.filterMap fun
    | .message p => some p
    | .disconnect => none

/-- The stream has ended, and not behind a complete frame. -/
def Cut (k : Connection) : Prop := k.closed ∧ (framing .bigEndian).residue k.sent ≠ []

variable {k : Connection}

theorem Framed.log_prefix (h : k.Framed) :
    k.log <+: ((framing .bigEndian).frames k.sent).map .message ++ [.disconnect] := by
  rcases h with ⟨ps, hlog, hframes⟩ | ⟨-, hlog⟩
  · rw [hlog, hframes, List.map_append, List.append_assoc]
    exact List.prefix_append _ _
  · rw [hlog]

/-- Where no complete frame is left, the session has got them all. -/
theorem Framed.messages_eq (h : k.Framed) (hnext : (framing .bigEndian).next? k.inbox = none) :
    k.messages = (framing .bigEndian).frames k.sent := by
  have hmap : ∀ ps : List (List UInt8), (ps.map ChannelCall.message).filterMap (fun
      | .message p => some p
      | .disconnect => none) = ps := by
    intro ps
    rw [List.filterMap_map]
    exact List.filterMap_some
  rcases h with ⟨ps, hlog, hframes⟩ | ⟨-, hlog⟩
  · rw [(framing .bigEndian).frames_of_none hnext, List.append_nil] at hframes
    rw [messages, hlog, hmap, hframes]
  · rw [messages, hlog, List.filterMap_append, hmap]
    exact List.append_nil _

theorem CutShort.cut (hcut : k.CutShort) (hflow : k.Flowing) : k.Cut := by
  refine ⟨hcut.1, ?_⟩
  rw [hflow.residue, (framing .bigEndian).residue_of_none hcut.2.2]
  exact hcut.2.1

end Connection

namespace Server

variable {host : ByteOrder} {code : Surroundings} {s t u : Server} {e : Event} {unset : UInt32}
  {fails : Bool} {h : Handler} {rest : List Handler}

/-! ## After the loop -/

/-- When the loop has ended, no handler is called in any continuation. -/
theorem outside_run {later : List Event} (hloop : s.loop ≠ .running)
    (hrun : run (Server.step host code) s later = some t) : s.Outside t := by
  apply run_invariant_of_step s.Outside _ (.refl s) hrun
  intro u e v hu hs
  have hended : u.loop ≠ .running := by rwa [hu.loop]
  rcases step_cases hs with ⟨unset, fails, rfl⟩ | ⟨hrunning, -⟩ | hv
  · exact absurd (serve_cases hs).1 hended
  · exact absurd hrunning hended
  · exact hu.trans hv

/-! ## An exception -/

/-- A handler that raises leaves the list as it is. -/
theorem place_of_call (hpending : s.pending = h :: rest)
    (hs : s.call host code unset fails h rest = some t) (hrunning : s.loop = .running)
    (hraised : t.loop = .raised) :
    t.handlers.map (fun h => (h.id, h.socket)) = s.handlers.map fun h => (h.id, h.socket) := by
  simp only [call] at hs
  split at hs
  · rcases acceptPreinit_cases hs with rfl | ⟨c, more, -, rfl⟩
    · rfl
    · simp [proceed, hrunning] at hraised
  · rcases acceptRegular_cases hs with rfl | ⟨c, more, -, rfl⟩
    · rfl
    · simp [proceed, onConnection, hrunning] at hraised
  · rcases handlePreinit_cases hs with ⟨rfl, -⟩ |
      ⟨first, others, inbox, -, -, hlist, hswitched, -⟩
    · rw [handlers_proceed, ← handlers_of_pending hpending]
    · rw [hlist, hswitched]
      simp [map_place_assign]
  · obtain ⟨outcome, rfl, hcases⟩ := handleSession_cases hs
    rcases hcases with ⟨-, -, -, hstatus⟩ | ⟨-, -, ⟨-, -, -, hstatus⟩ | ⟨-, -, hstatus⟩⟩
    · rw [served_proceed hpending hstatus]
    · rw [(served_removeThis hstatus).2, hrunning] at hraised
      cases hraised
    · rw [served_proceed hpending hstatus]
  · rcases handleAux_cases hpending hs with ⟨-, -, -, -, hloop⟩
    rw [hrunning, hraised] at hloop
    simp at hloop

theorem place_of_raised (hs : s.step host code e = some t) (hrunning : s.loop = .running)
    (hraised : t.loop = .raised) :
    t.handlers.map (fun h => (h.id, h.socket)) = s.handlers.map fun h => (h.id, h.socket) := by
  rcases step_cases hs with ⟨unset, fails, rfl⟩ | ⟨-, -, hlist, -⟩ | houtside
  · rcases serve_cases hs with ⟨-, h, rest, hpending, ⟨-, rfl⟩ | ⟨-, hcall⟩⟩
    · simp [proceed, hrunning] at hraised
    · exact place_of_call hpending hcall hrunning hraised
  · rw [hlist]
  · rw [houtside.handlers]

/-! ## One client -/

theorem update_stream {conns : Socket → Connection} {d : Socket} {k : Connection}
    (hclosed : k.closed = (conns d).closed) (hsent : k.sent = (conns d).sent) (c : Socket) :
    (Function.update conns d k c).closed = (conns c).closed ∧
      (Function.update conns d k c).sent = (conns c).sent :=
  ⟨field_update Connection.closed hclosed c, field_update Connection.sent hsent c⟩

/-- A call takes bytes from streams; it adds none and closes none. -/
theorem stream_of_call (hpending : s.pending = h :: rest)
    (hs : s.call host code unset fails h rest = some t) (c : Socket) :
    (t.conns c).closed = (s.conns c).closed ∧ (t.conns c).sent = (s.conns c).sent := by
  simp only [call] at hs
  split at hs
  · rcases acceptPreinit_cases hs with rfl | ⟨d, more, -, rfl⟩ <;> exact ⟨rfl, rfl⟩
  · rcases acceptRegular_cases hs with rfl | ⟨d, more, -, rfl⟩
    · exact ⟨rfl, rfl⟩
    · exact update_stream (by rfl) (by rfl) c
  · rcases handlePreinit_cases hs with ⟨rfl, -⟩ |
      ⟨first, others, inbox, -, -, -, -, hconns, -⟩
    · exact ⟨rfl, rfl⟩
    · rw [hconns, switchedConns]
      split
      · exact ⟨rfl, rfl⟩
      · split <;> exact ⟨rfl, rfl⟩
  · rcases handleSession_cases hs with ⟨outcome, rfl, -⟩
    rw [served_conns]
    exact update_stream (by rfl) (by rfl) c
  · rcases handleAux_cases hpending hs with ⟨hconns, -⟩
    rw [hconns]
    exact update_stream (by rfl) (by rfl) c

/-- A stream that has ended inside a frame stays as it is. -/
theorem cut_step {n : ℕ} (hcut : (s.conns (.client n)).Cut) (hs : s.step host code e = some t) :
    (t.conns (.client n)).Cut := by
  have hkeep : (t.conns (.client n)).closed ∧
      (t.conns (.client n)).sent = (s.conns (.client n)).sent := by
    rcases step_cases hs with ⟨unset, fails, rfl⟩ | ⟨-, -, -, hconns⟩ | houtside
    · rcases serve_cases hs with ⟨-, h, rest, hpending, ⟨-, rfl⟩ | ⟨-, hcall⟩⟩
      · exact ⟨hcut.1, rfl⟩
      · have hstream := stream_of_call hpending hcall (.client n)
        exact ⟨hstream.1.trans hcut.1, hstream.2⟩
    · rw [hconns]
      exact ⟨hcut.1, rfl⟩
    · exact ⟨houtside.closed n hcut.1, houtside.sent n hcut.1⟩
  exact ⟨hkeep.1, hkeep.2 ▸ hcut.2⟩

/-- The connection of one client is in order as long as its stream does not end inside a
frame, whatever the other clients send. -/
theorem inOrder_or_cut {n early : ℕ} {events : List Event}
    (hrun : run (Server.step host code) (.init host early) events = some t) :
    t.InOrder (· = .client n) ∨ (t.conns (.client n)).Cut := by
  apply run_invariant_of_step (fun s => s.InOrder (· = .client n) ∨ (s.conns (.client n)).Cut) _
    (.inl (inOrder_init _ host early)) hrun
  rintro s e t (hI | hcut) hs
  · by_cases hserved : NotCutShort (· = .client n) s e
    · exact .inl (inOrder_step hI hserved hs)
    · right
      simp only [NotCutShort, not_forall, not_not] at hserved
      obtain ⟨unset, fails, h, -, hh, hsocket, hcut⟩ := hserved
      have hmem : h ∈ s.handlers :=
        List.mem_append_right _ (List.mem_of_mem_head? hh.next)
      have hflow := hI.intact.session h hmem hh.handler hsocket
      rw [hsocket] at hflow hcut
      exact cut_step (hcut.cut hflow) hs
  · exact .inr (cut_step hcut hs)

/-- What the session of a client has got at the end of a run. -/
theorem framed_of_run {n early : ℕ} {events : List Event}
    (hrun : run (Server.step host code) (.init host early) events = some t)
    (hcreated : 0 < (t.conns (.client n)).created) (hcut : ¬ (t.conns (.client n)).Cut) :
    (t.conns (.client n)).Framed := by
  rcases inOrder_or_cut (n := n) hrun with hI | h
  · rcases hI.intact.created (.client n) rfl hcreated with hflow | hend
    · exact .inl hflow.frames
    · exact .inr hend
  · exact absurd h hcut

end Server

/-! ## Runs -/

/-- The server gets into the state in some run. -/
def Server.Reachable (host : ByteOrder) (code : Surroundings) (early : ℕ) (s : Server) : Prop :=
  ∃ events, run (Server.step host code) (.init host early) events = some s

/-- For every session code and any number of clients. When a handler raises, all handlers
stay in the list, and none is ever called again. In any two runs in which one client sends
the same bytes, and does not close inside a frame, what its session has got in one of them is
the beginning of what it has got in the other; it has got the same messages in both when no
complete frame is left to be taken. -/
theorem fault_ends_loop_without_mixing (host : ByteOrder) (code : Surroundings) (early : ℕ) :
    (∀ (s t : Server) e, s.step host code e = some t → s.loop = .running → t.loop = .raised →
        t.handlers.map (fun h => (h.id, h.socket)) = s.handlers.map (fun h => (h.id, h.socket)) ∧
        ∀ later u, run (Server.step host code) t later = some u →
          u.loop = .raised ∧ u.handlers = t.handlers ∧ ∀ c, (u.conns c).log = (t.conns c).log) ∧
    ∀ s t n, Server.Reachable host code early s → Server.Reachable host code early t →
      let k := s.conns (.client n)
      let k' := t.conns (.client n)
      k.sent = k'.sent → 0 < k.created → 0 < k'.created → ¬ k.Cut → ¬ k'.Cut →
        (k.log <+: k'.log ∨ k'.log <+: k.log) ∧
        ((framing .bigEndian).next? k.inbox = none → (framing .bigEndian).next? k'.inbox = none →
          k.messages = k'.messages) := by
  constructor
  · intro s t e hs hrunning hraised
    refine ⟨Server.place_of_raised hs hrunning hraised, ?_⟩
    intro later u hlater
    have houtside := Server.outside_run (by simp [hraised]) hlater
    exact ⟨houtside.loop.trans hraised, houtside.handlers, houtside.log⟩
  · intro s t n hs ht k k' hsent hcreated hcreated' hcut hcut'
    rcases hs with ⟨events, hrun⟩
    rcases ht with ⟨events', hrun'⟩
    have hframed : k.Framed := Server.framed_of_run hrun hcreated hcut
    have hframed' : k'.Framed := Server.framed_of_run hrun' hcreated' hcut'
    constructor
    · have hprefix := hframed.log_prefix
      rw [hsent] at hprefix
      exact List.prefix_or_prefix_of_prefix hprefix hframed'.log_prefix
    · intro hnext hnext'
      rw [hframed.messages_eq hnext, hframed'.messages_eq hnext', hsent]

/-- Sessions that hand every message to a `strmd::server_session` without handlers. -/
def Surroundings.strmd : Surroundings where
  createRaises _ := false
  messageRaises _ log :=
    match log.getLast? with
    | some (.message p) =>
        let code : Strmd.ServerCode Unit Unit := ⟨fun _ => none, fun _ _ => .done⟩
        (Strmd.ServerSession.message code .varint () ⟨[], false⟩ p).raised
    | _ => false
  emptyRecvWaits := true

/-- Two clients have a session each, the first has sent `bytes` and the second a request, and
the pass is at the session of the first. -/
def twoSend (bytes : List UInt8) : List Event :=
  startUp ++ [.connect, .connect, .select, .turn, .turn, .turn, .select, .turn, .turn, .turn,
    .turn, .send 0 bytes, .send 1 [0, 0, 0, 2, 1, 1], .select, .turn, .turn]

/-- A message that ends behind its id, in place of a request. -/
theorem fault_ends_loop_without_mixing_short_message :
    (∃ s t, run (Server.step .littleEndian .strmd) (.init .littleEndian 0)
        (twoSend [0, 0, 0, 1, 0]) = some s ∧ s.step .littleEndian .strmd .turn = some t ∧
        t.handlers.map (fun h => (h.id, h.socket)) =
          s.handlers.map (fun h => (h.id, h.socket))) ∧
    (∃ s t, run (Server.step .littleEndian .strmd) (.init .littleEndian 0)
        (twoSend [0, 0, 0, 1, 0] ++ [.turn]) = some s ∧
      run (Server.step .littleEndian .strmd) (.init .littleEndian 0)
        (twoSend [0, 0, 0, 2, 0, 0] ++ [.turn, .turn]) = some t ∧
      ((s.conns (.client 1)).log <+: (t.conns (.client 1)).log ∨
        (t.conns (.client 1)).log <+: (s.conns (.client 1)).log)) := by
  have hfault := fault_ends_loop_without_mixing .littleEndian .strmd 0
  have hlast : ∃ t, run (Server.step .littleEndian .strmd) (.init .littleEndian 0)
      (twoSend [0, 0, 0, 1, 0] ++ [.turn]) = some t ∧ t.loop = .raised ∧
        (t.conns (.client 1)).sent = [0, 0, 0, 2, 1, 1] ∧
        (t.conns (.client 1)).created = 1 ∧ (t.conns (.client 1)).closed = false :=
    ⟨_, rfl, rfl, rfl, rfl, rfl⟩
  have hlast' : ∃ t, run (Server.step .littleEndian .strmd) (.init .littleEndian 0)
      (twoSend [0, 0, 0, 2, 0, 0] ++ [.turn, .turn]) = some t ∧
        (t.conns (.client 1)).sent = [0, 0, 0, 2, 1, 1] ∧
        (t.conns (.client 1)).created = 1 ∧ (t.conns (.client 1)).closed = false :=
    ⟨_, rfl, rfl, rfl, rfl⟩
  rcases hlast with ⟨t, hrun, hraised, hsent, hcreated, hopen⟩
  rcases hlast' with ⟨t', hrun', hsent', hcreated', hopen'⟩
  constructor
  · rcases run_concat_eq_some.mp hrun with ⟨s, hs, hturn⟩
    have hrunning : s.loop = .running := (Server.serve_cases hturn).1
    exact ⟨s, t, hs, hturn, (hfault.1 s t _ hturn hrunning hraised).1⟩
  · refine ⟨t, t', hrun, hrun', ?_⟩
    refine (hfault.2 t t' 1 ⟨_, hrun⟩ ⟨_, hrun'⟩ (hsent.trans hsent'.symm) ?_ ?_ ?_ ?_).1
    · simp [hcreated]
    · simp [hcreated']
    · simp [Connection.Cut, hopen]
    · simp [Connection.Cut, hopen']

/-- The second client gets its message where the first has sent a request, and never gets it
where the first has sent a message that ends behind its id. -/
theorem short_message_stops_others :
    (∃ t, run (Server.step .littleEndian .strmd) (.init .littleEndian 0)
        (twoSend [0, 0, 0, 2, 0, 0] ++ [.turn, .turn]) = some t ∧
        (t.conns (.client 1)).messages = [[1, 1]]) ∧
    ∃ t, run (Server.step .littleEndian .strmd) (.init .littleEndian 0)
        (twoSend [0, 0, 0, 1, 0] ++ [.turn]) = some t ∧
      ∀ later u, run (Server.step .littleEndian .strmd) t later = some u →
        (u.conns (.client 1)).messages = [] := by
  refine ⟨⟨_, rfl, rfl⟩, _, rfl, ?_⟩
  intro later u hlater
  have houtside := Server.outside_run (by decide) hlater
  rw [Connection.messages, houtside.log]
  rfl

end CohesionIpc.Sockets
