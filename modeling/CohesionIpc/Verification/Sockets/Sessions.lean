import CohesionIpc.Verification.Sockets.Connections
import CohesionIpc.Verification.Sockets.Shutdown

/-! What the session of a connection gets: the frames of that connection's own stream, and a
`disconnect` at its end. -/

namespace CohesionIpc.Sockets

open Transition

namespace Connection

/-- The session has got the complete frames that have been taken from the stream of its
connection or, once it has ended, all of them and one `disconnect`. -/
def Framed (k : Connection) : Prop :=
  (∃ ps : List (List UInt8), k.log = ps.map .message ∧
    (framing .bigEndian).frames k.sent = ps ++ (framing .bigEndian).frames k.inbox) ∨
  k.Ended

end Connection

/-- The sessions are served frame by frame, as far as a step from `s` to `t` goes. -/
structure ServesFrames (s : Server) (e : Event) (t : Server) : Prop where
  /-- No session has got anything else than its own frames and a `disconnect`. -/
  framed : ∀ c, 0 < (t.conns c).created → (t.conns c).Framed
  /-- The session that is served gets the next frame and stays. -/
  message : ∀ unset fails h p rest, e = .serve unset fails → s.Serves .handleSession h →
    (framing .bigEndian).next? (s.conns h.socket).inbox = some (p, rest) →
      (t.conns h.socket).log = (s.conns h.socket).log ++ [.message p] ∧ h ∈ t.handlers
  /-- Where no complete frame is left it gets a `disconnect` and is removed. -/
  disconnect : ∀ unset fails h, e = .serve unset fails → s.Serves .handleSession h →
    (framing .bigEndian).next? (s.conns h.socket).inbox = none →
      (t.conns h.socket).log = (s.conns h.socket).log ++ [.disconnect] ∧ h ∉ t.handlers

namespace Server

variable {host : ByteOrder} {code : Surroundings} {s t : Server} {e : Event} {unset : UInt32}
  {fails : Bool} {h : Handler} {watch : Socket → Prop}

theorem handleSession_of_serves (hh : s.Serves .handleSession h)
    (hs : s.step host code (.serve unset fails) = some t) :
    ∃ rest, s.pending = h :: rest ∧ s.handleSession host code unset h rest = some t := by
  obtain ⟨rest, hpending, hcall⟩ := call_of_serves hh hs
  rw [call, hh.handler] at hcall
  exact ⟨rest, hpending, hcall⟩

theorem served_log (code : Surroundings) (s : Server) (h : Handler) (rest : List Handler)
    (outcome : Served (List UInt8)) :
    ((s.served code h rest outcome).conns h.socket).log =
      (s.conns h.socket).log ++ [outcome.call] := by
  rw [served_conns, Function.update_self]

theorem message_of_serves (hh : s.Serves .handleSession h)
    (hs : s.step host code (.serve unset fails) = some t) {p rest : List UInt8}
    (hnext : (framing .bigEndian).next? (s.conns h.socket).inbox = some (p, rest)) :
    (t.conns h.socket).log = (s.conns h.socket).log ++ [.message p] ∧ h ∈ t.handlers := by
  obtain ⟨pending, hpending, hcall⟩ := handleSession_of_serves hh hs
  obtain ⟨outcome, rfl, hcases⟩ := handleSession_cases hcall
  rcases hcases with ⟨q, hq, hmessage, hstatus⟩ | ⟨hnone, -⟩
  · rw [hnext, Option.some.injEq, Prod.mk.injEq] at hq
    rw [served_log, hmessage, served_proceed hpending hstatus, hq.1]
    exact ⟨rfl, mem_handlers_of_pending hpending⟩
  · rw [hnext] at hnone
    cases hnone

theorem disconnect_of_serves (hI : Intact watch s.conns s.clients s.backlog s.handlers)
    (hcut : ¬ (s.conns h.socket).CutShort) (hh : s.Serves .handleSession h)
    (hs : s.step host code (.serve unset fails) = some t)
    (hnext : (framing .bigEndian).next? (s.conns h.socket).inbox = none) :
    (t.conns h.socket).log = (s.conns h.socket).log ++ [.disconnect] ∧ h ∉ t.handlers := by
  obtain ⟨rest, hpending, hcall⟩ := handleSession_of_serves hh hs
  obtain ⟨outcome, rfl, hcases⟩ := handleSession_cases hcall
  rcases hcases with ⟨q, hq, -⟩ | ⟨-, hclosed, ⟨-, hdisconnect, -, hstatus⟩ | ⟨hinbox, -⟩⟩
  · rw [hnext] at hq
    cases hq
  · refine ⟨by rw [served_log, hdisconnect], ?_⟩
    intro hmem
    rw [(served_removeThis hstatus).1] at hmem
    exact hI.socket_notMem_of_middle (handlers_of_pending hpending) (List.mem_map_of_mem hmem)
  · exact absurd ⟨hclosed, hinbox, hnext⟩ hcut

/-- A session whose stream was cut short gets a message. -/
theorem message_of_cutShort (hcut : (s.conns h.socket).CutShort) (hh : s.Serves .handleSession h)
    (hs : s.step host code (.serve unset fails) = some t) :
    ∃ p, (t.conns h.socket).log = (s.conns h.socket).log ++ [.message p] := by
  obtain ⟨rest, -, hcall⟩ := handleSession_of_serves hh hs
  obtain ⟨outcome, rfl, hcases⟩ := handleSession_cases hcall
  rcases hcases with ⟨q, hq, -⟩ | ⟨-, -, ⟨hinbox, -⟩ | ⟨-, ⟨p, hmessage⟩, -⟩⟩
  · rw [hcut.2.2] at hq
    cases hq
  · exact absurd hinbox hcut.2.1
  · exact ⟨p, by rw [served_log, hmessage]⟩

theorem servesFrames_of_notCutShort (hI : s.InOrder fun _ => True)
    (hcut : NotCutShort (fun _ => True) s e) (hs : s.step host code e = some t) :
    ServesFrames s e t := by
  refine ⟨?_, ?_, ?_⟩
  · intro c hcreated
    rcases (inOrder_step hI hcut hs).intact.created c trivial hcreated with hflow | hend
    · exact .inl hflow.frames
    · exact .inr hend
  · rintro unset fails h p rest rfl hh hnext
    exact message_of_serves hh hs hnext
  · rintro unset fails h rfl hh hnext
    exact disconnect_of_serves hI.intact (hcut unset fails h rfl hh trivial) hh hs hnext

theorem notCutShort_of_servesFrames (hs : s.step host code e = some t)
    (hT : ServesFrames s e t) : NotCutShort (fun _ => True) s e := by
  rintro unset fails h rfl hh - hcut
  obtain ⟨p, hmessage⟩ := message_of_cutShort hcut hh hs
  have hdisconnect := (hT.disconnect unset fails h rfl hh hcut.2.2).1
  rw [hmessage, List.append_cancel_left_eq] at hdisconnect
  cases hdisconnect

end Server

/-! ## Runs -/

/-- For every session code, any number of clients, whatever they send and however the turns
of the loop fall in between: every session gets exactly the frames of its own stream and
one `disconnect` throughout the run exactly when none is served after its stream has
ended inside a frame. -/
theorem serves_frames_iff (host : ByteOrder) (code : Surroundings) (early : ℕ)
    {events : List Event}
    (hrun : (run (Server.step host code) (.init host early) events).isSome) :
    Through (Server.step host code) ServesFrames (.init host early) events ↔
      Along (Server.step host code) (NotCutShort fun _ => True) (.init host early) events := by
  apply through_iff_along_of_step (Server.InOrder fun _ => True)
  · intro s e t hI hcut hs
    exact ⟨Server.inOrder_step hI hcut hs, Server.servesFrames_of_notCutShort hI hcut hs⟩
  · exact fun s e t _ hs hT => Server.notCutShort_of_servesFrames hs hT
  · exact Server.inOrder_init _ host early
  · exact hrun

/-- Two clients have a session each, and the first gets a message of three bytes. -/
def oneMessage : List Event :=
  startUp ++ [.connect, .connect, .select, .turn, .turn, .turn, .select, .turn, .turn, .turn,
    .turn, .send 0 [0, 0, 0, 3, 7, 8, 9], .select, .turn, .turn, .turn]

/-- The second client sends a frame of its own and closes. -/
theorem serves_frames_iff_two_clients :
    Through (Server.step .littleEndian .quiet) ServesFrames (.init .littleEndian 0)
        (oneMessage ++ [.turn, .send 1 [0, 0, 0, 1, 5], .close 1, .select, .turn, .turn, .turn,
          .turn, .select, .turn, .turn, .turn, .turn]) ↔
      Along (Server.step .littleEndian .quiet) (NotCutShort fun _ => True) (.init .littleEndian 0)
        (oneMessage ++ [.turn, .send 1 [0, 0, 0, 1, 5], .close 1, .select, .turn, .turn, .turn,
          .turn, .select, .turn, .turn, .turn, .turn]) :=
  serves_frames_iff .littleEndian .quiet 0 (by rfl)

/-- The second client announces three bytes, sends one and closes. -/
def cutPayload : List Event :=
  oneMessage ++ [.turn, .send 1 [0, 0, 0, 3, 1], .close 1, .select, .turn, .turn, .turn]

/-- Its session gets a message that ends in bytes of the first client. -/
theorem cut_payload_leaks :
    (∃ t, run (Server.step .littleEndian .quiet) (.init .littleEndian 0)
        (cutPayload ++ [.turn]) = some t ∧ (t.conns (.client 1)).log = [.message [1, 8, 9]]) ∧
    ¬ Through (Server.step .littleEndian .quiet) ServesFrames (.init .littleEndian 0)
      (cutPayload ++ [.turn]) := by
  refine ⟨⟨_, rfl, rfl⟩, ?_⟩
  intro h
  have hlast := (through_append h rfl _ rfl).1.disconnect 0 false ⟨103, .handleSession, .client 1⟩
    rfl ⟨rfl, rfl, rfl, by decide⟩ (by decide)
  exact absurd hlast.1 (by decide)

end CohesionIpc.Sockets
