import CohesionIpc.Model.Sockets.Server

/-! The processing loop ends through `handle_aux` for two reasons that it does not tell
apart: it was asked to stop, or the id it has received is that of no handler. -/

namespace CohesionIpc.Sockets

open Transition

/-- The loop stops on purpose only, as far as a step from `s` to `t` goes. -/
structure StopsOnPurpose (host : ByteOrder) (s : Server) (e : Event) (t : Server) : Prop where
  exit : s.loop = .running → t.loop = .exited → s.stopSent
  gone : ∀ unset fails h, e = .serve unset fails → s.Serves .handleAux h →
    0 < (s.receivedId host unset h).result → (s.receivedId host unset h).value ≠ 0 →
      (∀ h' ∈ s.handlers, h'.id ≠ (s.receivedId host unset h).value) →
        t.loop = .running ∧ t.handlers = s.handlers

/-- What `handle_aux` receives is the id of a handler that is still in the list or, once
the server has sent it, the stop code. -/
def ReceivesPresentId (host : ByteOrder) (s : Server) (e : Event) : Prop :=
  ∀ unset fails h, e = .serve unset fails → s.Serves .handleAux h →
    (0 < (s.receivedId host unset h).result ∧
      ∃ h' ∈ s.handlers, h'.id = (s.receivedId host unset h).value) ∨
    (s.stopSent ∧ ((s.receivedId host unset h).result = 0 ∨
      (s.receivedId host unset h).value = 0))

namespace Server

variable {host : ByteOrder} {code : Surroundings} {s t : Server} {e : Event}

theorem loop_of_call {unset : UInt32} {fails : Bool} {h : Handler} {rest : List Handler}
    (hrunning : s.loop = .running) (hs : s.call host code unset fails h rest = some t)
    (hh : h.handler ≠ .handleAux) : t.loop ≠ .exited := by
  simp only [call] at hs
  split at hs
  · rcases acceptPreinit_cases hs with rfl | ⟨c, more, -, rfl⟩ <;> simp [proceed, hrunning]
  · rcases acceptRegular_cases hs with rfl | ⟨c, more, -, rfl⟩ <;>
      simp [proceed, onConnection, hrunning]
  · rcases handlePreinit_cases hs with ⟨rfl, -⟩ |
      ⟨first, others, inbox, -, -, -, -, -, -, -, hloop⟩
    · simp [proceed, hrunning]
    · rw [hloop, hrunning]
      split <;> simp
  · rcases handleSession_cases hs with ⟨outcome, rfl, hcases⟩
    simp only [served]
    split
    · simp [onConnection, hrunning]
    · rename_i hexit
      rw [hexit] at hcases
      simp at hcases
    · split <;> simp [proceed, onConnection, hrunning]
  · rename_i haux
    exact absurd haux hh

theorem handleAux_exited {unset : UInt32} {h : Handler} {rest : List Handler}
    (hrunning : s.loop = .running) (hs : s.handleAux host unset h rest = some t) :
    t.loop = .exited ↔ ¬ (0 < (s.receivedId host unset h).result ∧
      ∃ h' ∈ s.handlers, h'.id = (s.receivedId host unset h).value) := by
  simp only [handleAux] at hs
  split at hs
  · cases hs
  · by_cases hfound : 0 < (s.receivedId host unset h).result ∧
        ∃ h' ∈ s.handlers, h'.id = (s.receivedId host unset h).value
    · rw [if_pos hfound] at hs
      split at hs
      · cases hs
        simp [proceed, onConnection, hrunning, hfound]
      · split at hs <;> cases hs <;> simp [proceed, onConnection, hrunning, hfound]
    · rw [if_neg hfound] at hs
      cases hs
      simp [hfound]

theorem handleAux_of_serves {unset : UInt32} {fails : Bool} {h : Handler}
    (hh : s.Serves .handleAux h) (hs : s.step host code (.serve unset fails) = some t) :
    ∃ rest, s.handleAux host unset h rest = some t := by
  obtain ⟨rest, -, hcall⟩ := call_of_serves hh hs
  rw [call, hh.handler] at hcall
  exact ⟨rest, hcall⟩

theorem serves_of_exited (hrunning : s.loop = .running) (hs : s.step host code e = some t)
    (hexit : t.loop = .exited) :
    ∃ unset fails h, e = .serve unset fails ∧ s.Serves .handleAux h := by
  rcases step_cases hs with ⟨unset, fails, rfl⟩ | ⟨-, hloop, -⟩ | houtside
  · rcases serve_cases hs with ⟨-, h, rest, hpending, ⟨-, rfl⟩ | ⟨hserves, hcall⟩⟩
    · exact absurd hexit (by simp [proceed, hrunning])
    · by_cases hh : h.handler = .handleAux
      · exact ⟨unset, fails, h, rfl, hh ▸ hserves⟩
      · exact absurd hexit (loop_of_call hrunning hcall hh)
  · rw [hexit] at hloop
    simp at hloop
  · rw [houtside.loop, hrunning] at hexit
    cases hexit

theorem stopsOnPurpose_of_present (hpresent : ReceivesPresentId host s e)
    (hs : s.step host code e = some t) : StopsOnPurpose host s e t := by
  constructor
  · intro hrunning hexit
    obtain ⟨unset, fails, h, rfl, hh⟩ := serves_of_exited hrunning hs hexit
    obtain ⟨rest, hcall⟩ := handleAux_of_serves hh hs
    rcases hpresent unset fails h rfl hh with hfound | ⟨hstop, -⟩
    · exact absurd hfound ((handleAux_exited hrunning hcall).mp hexit)
    · exact hstop
  · intro unset fails h he hh hresult hvalue hgone
    rcases hpresent unset fails h he hh with ⟨-, h', hmem, hid⟩ | ⟨-, hnone | hzero⟩
    · exact absurd hid (hgone h' hmem)
    · omega
    · exact absurd hzero hvalue

theorem present_of_stopsOnPurpose (hs : s.step host code e = some t)
    (hT : StopsOnPurpose host s e t) : ReceivesPresentId host s e := by
  intro unset fails h he hh
  by_cases hfound : 0 < (s.receivedId host unset h).result ∧
      ∃ h' ∈ s.handlers, h'.id = (s.receivedId host unset h).value
  · exact .inl hfound
  · right
    rw [he] at hs
    obtain ⟨rest, hcall⟩ := handleAux_of_serves hh hs
    have hexit : t.loop = .exited := (handleAux_exited hh.running hcall).mpr hfound
    refine ⟨hT.exit hh.running hexit, ?_⟩
    by_contra hother
    rw [not_or] at hother
    have hpos : 0 < (s.receivedId host unset h).result := Nat.pos_of_ne_zero hother.1
    have hgone : ∀ h' ∈ s.handlers, h'.id ≠ (s.receivedId host unset h).value :=
      fun h' hmem hid => hfound ⟨hpos, h', hmem, hid⟩
    have hrunning := (hT.gone unset fails h he hh hpos hother.2 hgone).1
    rw [hrunning] at hexit
    cases hexit

end Server

/-! ## Runs -/

/-- For every session code and every order of connections, sends, closes, `disconnect` calls
and turns of the loop: the loop stops on purpose only throughout the run exactly when every
id that `handle_aux` receives in it is that of a handler still in the list, up to the stop
code. -/
theorem stops_on_purpose_iff (host : ByteOrder) (code : Surroundings) (early : ℕ)
    {events : List Event}
    (hrun : (run (Server.step host code) (.init host early) events).isSome) :
    Through (Server.step host code) (StopsOnPurpose host) (.init host early) events ↔
      Along (Server.step host code) (ReceivesPresentId host) (.init host early) events := by
  apply through_iff_along_of_step fun _ => True
  · exact fun s e t _ hpresent hs => ⟨trivial, Server.stopsOnPurpose_of_present hpresent hs⟩
  · exact fun s e t _ hs hT => Server.present_of_stopsOnPurpose hs hT
  · trivial
  · exact hrun

def Surroundings.quiet : Surroundings := ⟨fun _ => false, fun _ _ => false, true⟩

def Event.turn : Event := .serve 0 false

/-- The loop accepts the server's own connection and recognises it. -/
def startUp : List Event := [.select, .turn, .turn, .select, .turn, .turn]

theorem stops_on_purpose_iff_one_disconnect :
    Through (Server.step .littleEndian .quiet) (StopsOnPurpose .littleEndian)
        (.init .littleEndian 0) (startUp ++ [.connect, .select, .turn, .turn, .turn,
          .disconnect 102, .select, .turn, .turn]) ↔
      Along (Server.step .littleEndian .quiet) (ReceivesPresentId .littleEndian)
        (.init .littleEndian 0) (startUp ++ [.connect, .select, .turn, .turn, .turn,
          .disconnect 102, .select, .turn, .turn]) :=
  stops_on_purpose_iff .littleEndian .quiet 0 (by rfl)

/-- A client closes, its session calls `disconnect` in reaction, and the id is about to be
received when the handler has been removed. -/
def disconnectAfterClose : List Event :=
  startUp ++ [.connect, .select, .turn, .turn, .turn, .close 0, .select, .turn, .turn,
    .disconnect 102, .turn, .select, .turn]

/-- The loop ends although nobody has asked it to. -/
theorem disconnect_after_close_exits :
    (∃ t, run (Server.step .littleEndian .quiet) (.init .littleEndian 0)
        (disconnectAfterClose ++ [.turn]) = some t ∧ t.loop = .exited ∧ t.stopSent = false) ∧
    ¬ Through (Server.step .littleEndian .quiet) (StopsOnPurpose .littleEndian)
      (.init .littleEndian 0) (disconnectAfterClose ++ [.turn]) := by
  refine ⟨⟨_, rfl, rfl, rfl⟩, ?_⟩
  intro h
  have hlast := through_append h rfl
  exact absurd ((hlast _ rfl).1.exit rfl rfl) (by decide)

end CohesionIpc.Sockets
