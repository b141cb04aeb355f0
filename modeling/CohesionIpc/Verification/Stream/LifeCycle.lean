import CohesionIpc.Model.StreamServer

/-! The life cycle of the session of a stream server, for every input, every way in which the
calls of the worker end, and every moment at which the connector is destroyed. -/

namespace CohesionIpc.Stream

open Transition CancellableRead.Unix SessionConnector

/-- `disconnect` has been called. -/
def Worker.disconnected : Worker → Bool
  | .inDisconnect | .exited .disconnected => true
  | .creating | .header | .payload _ | .inMessage | .exited .factoryThrew
  | .exited .readCancelled | .exited .selectFailed | .exited .resizeThrew
  | .exited .messageThrew => false

/-- What a session sees between its creation and the end of the worker. -/
structure LifeCycle (s : SessionConnector) : Prop where
  shape : ∃ ms : List (List UInt8),
    s.log = ms.map .message ∨ s.log = ms.map .message ++ [.disconnect]
  /-- `read_messages` has returned. -/
  disconnected : s.worker = .exited .disconnected → s.log.count .disconnect = 1
  /-- Something has thrown: the read that was cancelled or anything else. -/
  thrown : ∀ how, s.worker = .exited how → how ≠ .disconnected → s.log.count .disconnect = 0
  cancelled : s.worker = .exited .readCancelled → s.destructor ≠ .notCalled
  joined : s.destructor = .returned → ∃ how, s.worker = .exited how

/-- What one step may do to the calls of a session. -/
structure Quieted (s t : SessionConnector) : Prop where
  lifeCycle : LifeCycle t
  grows : s.log <+: t.log
  silent : s.destructor = .returned → t.log = s.log

/-- The reader has seen the signal. -/
def sawSignal : Reader → Bool
  | .selected _ true _ | .finished .cancelledException => true
  | .outside | .selecting _ | .selected _ false _ | .unsignalled _ _ | .reading _ _ _
  | .finished (.bytesRead _) => false

/-- The calls of the session are those of messages, and one to `disconnect` when the worker has
come to it; nothing cancels a read but the destructor. -/
structure Calls (s : SessionConnector) : Prop where
  log : ∃ ms : List (List UInt8), s.log = ms.map .message ++
    if s.worker.disconnected then [.disconnect] else []
  cancels : s.input.cancels ≠ 0 → s.destructor ≠ .notCalled
  signalled : sawSignal s.input.reader → s.input.cancels ≠ 0
  reading : s.input.reader ≠ .outside → s.worker.requested ≠ none
  exited : s.worker = .exited .readCancelled → s.destructor ≠ .notCalled
  joined : s.destructor = .returned → ∃ how, s.worker = .exited how

theorem calls_init (host : ByteOrder) (size : UInt32) : Calls (init host size) := by
  refine ⟨⟨[], rfl⟩, ?_, ?_, ?_, ?_, ?_⟩
  · exact fun h => absurd rfl h
  · intro h
    cases h
  · exact fun h => absurd rfl h
  · intro h
    cases h
  · intro h
    cases h

theorem count_disconnect_map (ms : List (List UInt8)) :
    (ms.map ChannelCall.message).count .disconnect = 0 := by
  rw [List.count_eq_zero]
  intro h
  rcases List.mem_map.mp h with ⟨m, -, hm⟩
  cases hm

theorem Calls.lifeCycle {s : SessionConnector} (h : Calls s) : LifeCycle s := by
  obtain ⟨ms, hlog⟩ := h.log
  refine ⟨⟨ms, ?_⟩, ?_, ?_, h.exited, h.joined⟩
  · cases hd : s.worker.disconnected with
    | false => exact .inl (by simpa [hd] using hlog)
    | true => exact .inr (by simpa [hd] using hlog)
  · intro hw
    rw [hlog, hw, List.count_append, count_disconnect_map]
    rfl
  · intro how hw hne
    have hnot : s.worker.disconnected = false := by
      rw [hw]
      cases how with
      | disconnected => exact absurd rfl hne
      | _ => rfl
    rw [hlog, hnot, List.count_append, count_disconnect_map]
    rfl

/-- The reader sees the signal only where it is up. -/
theorem sawSignal_step {x x' : State} {l : Label} (h : Step x l x')
    (hx : sawSignal x.reader → x.cancels ≠ 0) : sawSignal x'.reader → x'.cancels ≠ 0 := by
  intro hx'
  cases h with
  | select h hready =>
      cases hsignal : x.signalReady with
      | false =>
          rw [hsignal] at hx'
          cases hx'
      | true => exact Nat.pos_iff_ne_zero.mp (of_decide_eq_true hsignal)
  | signalled h => exact hx (by rw [h]; rfl)
  | cancel => exact Nat.succ_ne_zero _
  | selectInterrupted | arrive | close => exact hx hx'
  | readCall | unsignalled | dataReady | dataNotReady | readSome | readEof | freadReturn
  | readReturn => cases hx'

theorem cancels_step {x x' : State} {l : Label} (h : Step x l x') (hl : l ≠ .cancel) :
    x'.cancels = x.cancels := by
  cases h with
  | cancel => exact absurd rfl hl
  | _ => rfl

theorem not_disconnected_of_requested {w : Worker} (h : w.requested ≠ none) :
    w.disconnected = false ∧ ∀ how, w ≠ .exited how := by
  cases w with
  | header | payload => exact ⟨rfl, fun how h => by cases h⟩
  | creating | inMessage | inDisconnect | exited => exact absurd rfl h

/-- While the worker has not come to its end, the destructor has not returned. -/
theorem Calls.joined_of_running {s : SessionConnector} (hs : Calls s)
    (hw : ∀ how, s.worker ≠ .exited how) (w : Worker) (hd : s.destructor = .returned) :
    ∃ how, w = .exited how := by
  rcases hs.joined hd with ⟨how, hhow⟩
  exact absurd hhow (hw how)

/-- Something happens that is not a call of the session. -/
theorem Calls.move {s t : SessionConnector} (hs : Calls s) (hlog : t.log = s.log)
    (hdestructor : t.destructor = s.destructor) (hcancels : t.input.cancels = s.input.cancels)
    (hsignal : sawSignal t.input.reader → t.input.cancels ≠ 0)
    (hreading : t.input.reader ≠ .outside → t.worker.requested ≠ none)
    (hw : t.worker.disconnected = s.worker.disconnected)
    (hexit : t.worker = .exited .readCancelled → s.destructor ≠ .notCalled)
    (hjoined : s.destructor = .returned → ∃ how, t.worker = .exited how) : Calls t := by
  refine ⟨?_, ?_, hsignal, hreading, ?_, ?_⟩
  · rw [hlog, hw]
    exact hs.log
  · rw [hcancels, hdestructor]
    exact hs.cancels
  · rwa [hdestructor]
  · rwa [hdestructor]

/-- The worker goes on outside `_reader.read`. -/
theorem Calls.moveOutside {s t : SessionConnector} (hs : Calls s) (hlog : t.log = s.log)
    (hdestructor : t.destructor = s.destructor) (hcancels : t.input.cancels = s.input.cancels)
    (houtside : t.input.reader = .outside)
    (hw : t.worker.disconnected = s.worker.disconnected)
    (hexit : t.worker = .exited .readCancelled → s.destructor ≠ .notCalled)
    (hjoined : s.destructor = .returned → ∃ how, t.worker = .exited how) : Calls t := by
  refine hs.move hlog hdestructor hcancels ?_ (fun h => absurd houtside h) hw hexit hjoined
  intro h
  rw [houtside] at h
  cases h

/-- The worker calls the session when a read has returned. -/
theorem Calls.call {s t : SessionConnector} {c : ChannelCall} (hs : Calls s)
    (hlog : t.log = s.log ++ [c]) (hdestructor : t.destructor = s.destructor)
    (hcancels : t.input.cancels = s.input.cancels) (houtside : t.input.reader = .outside)
    (hrequested : s.worker.requested ≠ none)
    (hc : (∃ m, c = .message m) ∧ t.worker = .inMessage ∨
      c = .disconnect ∧ t.worker = .inDisconnect) : Calls t := by
  rcases hs.log with ⟨ms, hms⟩
  rcases not_disconnected_of_requested hrequested with ⟨hnot, hrunning⟩
  rw [hnot, if_neg (by decide), List.append_nil] at hms
  refine ⟨?_, ?_, ?_, fun h => absurd houtside h, ?_, ?_⟩
  · rw [hlog, hms]
    rcases hc with ⟨⟨m, rfl⟩, hw⟩ | ⟨rfl, hw⟩
    · refine ⟨ms ++ [m], ?_⟩
      simp [hw, Worker.disconnected]
    · refine ⟨ms, ?_⟩
      simp [hw, Worker.disconnected]
  · rw [hcancels, hdestructor]
    exact hs.cancels
  · intro h
    rw [houtside] at h
    cases h
  · intro hexit
    rcases hc with ⟨-, hw⟩ | ⟨-, hw⟩
    · rw [hw] at hexit
      cases hexit
    · rw [hw] at hexit
      cases hexit
  · rw [hdestructor]
    exact hs.joined_of_running hrunning t.worker

theorem calls_step {host : ByteOrder} {s t : SessionConnector} {e : Event} (hs : Calls s)
    (h : Taken host s e t) : Calls t := by
  have houtside : s.worker.requested = none → s.input.reader = .outside := by
    intro hnone
    by_contra hne
    exact hs.reading hne hnone
  cases h with
  | factoryReturns hw =>
      refine hs.moveOutside rfl rfl rfl (houtside (by rw [hw]; rfl)) (by rw [hw]; rfl)
        (fun h => by cases h) ?_
      exact hs.joined_of_running (by rw [hw]; intro how h; cases h) _
  | factoryThrows hw =>
      exact hs.moveOutside rfl rfl rfl (houtside (by rw [hw]; rfl)) (by rw [hw]; rfl)
        (fun h => by cases h) fun _ => ⟨_, rfl⟩
  | readStarts hn h =>
      refine hs.move rfl rfl (cancels_step h (by simp)) (sawSignal_step h hs.signalled) ?_ rfl
        hs.exited hs.joined
      rw [hn]
      exact fun _ hnone => by cases hnone
  | reads hl h =>
      refine hs.move rfl rfl (cancels_step h ?_) (sawSignal_step h hs.signalled) ?_ rfl hs.exited
        hs.joined
      · rintro rfl
        cases hl
      · exact fun _ => hs.reading (reader_ne_outside h hl)
  | selectFails h =>
      have hrequested := hs.reading (by rw [h]; simp)
      refine hs.moveOutside rfl rfl rfl rfl ?_ (fun h => by cases h) fun _ => ⟨_, rfl⟩
      rw [(not_disconnected_of_requested hrequested).1]
      rfl
  | cancelled h =>
      have hrequested := hs.reading (by rw [h]; simp)
      have hsignal := hs.signalled (by rw [h]; rfl)
      refine hs.moveOutside rfl rfl rfl rfl ?_ (fun _ => hs.cancels hsignal) fun _ => ⟨_, rfl⟩
      rw [(not_disconnected_of_requested hrequested).1]
      rfl
  | headerRead h hw hlen =>
      refine hs.moveOutside rfl rfl rfl rfl (by rw [hw]; rfl) (fun h => by cases h) ?_
      exact hs.joined_of_running (by rw [hw]; intro how h; cases h) _
  | headerCut h hw hlen =>
      exact hs.call rfl rfl rfl rfl (by rw [hw]; simp [Worker.requested]) (.inr ⟨rfl, rfl⟩)
  | payloadRead h hw =>
      exact hs.call rfl rfl rfl rfl (by rw [hw]; simp [Worker.requested]) (.inl ⟨⟨_, rfl⟩, rfl⟩)
  | stray h hw => exact absurd (houtside hw) (by rw [h]; simp)
  | resizeThrows h hw =>
      exact hs.moveOutside rfl rfl rfl rfl (by rw [hw]; rfl) (fun h => by cases h)
        fun _ => ⟨_, rfl⟩
  | messageReturns hw =>
      refine hs.moveOutside rfl rfl rfl (houtside (by rw [hw]; rfl)) (by rw [hw]; rfl)
        (fun h => by cases h) ?_
      exact hs.joined_of_running (by rw [hw]; intro how h; cases h) _
  | messageThrows hw =>
      exact hs.moveOutside rfl rfl rfl (houtside (by rw [hw]; rfl)) (by rw [hw]; rfl)
        (fun h => by cases h) fun _ => ⟨_, rfl⟩
  | disconnectReturns hw =>
      exact hs.moveOutside rfl rfl rfl (houtside (by rw [hw]; rfl)) (by rw [hw]; rfl)
        (fun h => by cases h) fun _ => ⟨_, rfl⟩
  | arrive h =>
      cases h with
      | arrive bytes hopen =>
          exact hs.move rfl rfl rfl hs.signalled hs.reading rfl hs.exited hs.joined
  | close h =>
      cases h with
      | close => exact hs.move rfl rfl rfl hs.signalled hs.reading rfl hs.exited hs.joined
  | destroy hd h =>
      cases h with
      | cancel =>
          refine ⟨hs.log, ?_, fun _ => Nat.succ_ne_zero _, hs.reading, ?_, ?_⟩
          · exact fun _ h => by cases h
          · exact fun _ h => by cases h
          · exact fun h => by cases h
  | joins hd hw =>
      refine ⟨hs.log, ?_, hs.signalled, hs.reading, ?_, fun _ => ⟨_, hw⟩⟩
      · exact fun _ h => by cases h
      · exact fun _ h => by cases h

/-- Nothing is called once the worker has come to its end. -/
theorem log_of_exited {host : ByteOrder} {s t : SessionConnector} {e : Event} {how : Exit}
    (hw : s.worker = .exited how) (h : Taken host s e t) : t.log = s.log := by
  cases h with
  | headerCut _ hw' _ | payloadRead _ hw' =>
      rw [hw] at hw'
      cases hw'
  | _ => rfl

theorem log_prefix {host : ByteOrder} {s t : SessionConnector} {e : Event}
    (h : Taken host s e t) : s.log <+: t.log := by
  cases h with
  | headerCut | payloadRead => exact List.prefix_append _ _
  | _ => exact List.prefix_rfl

/-- Messages, then one call to `disconnect` when `read_messages` has returned, and none when
something has thrown; and nothing after the destructor. -/
theorem session_life_cycle (host : ByteOrder) (size : UInt32) (events : List Event) :
    Through (SessionConnector.step host) (fun s _ t => Quieted s t) (init host size) events := by
  apply through_of_step Calls ?_ (calls_init host size)
  intro s e t hs ht
  have htaken := step_taken ht
  have hcalls := calls_step hs htaken
  refine ⟨hcalls, hcalls.lifeCycle, log_prefix htaken, ?_⟩
  intro hd
  rcases hs.joined hd with ⟨how, hw⟩
  exact log_of_exited hw htaken

/-- The session has got its `disconnect` when the worker ends without having been cancelled. -/
def DisconnectsUnlessCancelled (s : SessionConnector) : Prop :=
  ∀ how, s.worker = .exited how → how ≠ .factoryThrew → how ≠ .readCancelled →
    s.log.count .disconnect = 1

/-- A session that throws at its first message is not told that it is disconnected. -/
theorem not_disconnectsUnlessCancelled :
    ¬∀ events t, run (SessionConnector.step .littleEndian) (init .littleEndian 0) events = some t →
      DisconnectsUnlessCancelled t := by
  intro hall
  rcases hrun : run (SessionConnector.step .littleEndian) (init .littleEndian 0)
    ([.factoryReturns, .arrive [1, 0, 0, 0, 7]] ++ readOf 4 ++ readOf 1 ++ [.messageThrows])
    with _ | t
  · cases hrun
  · have hcount := hall _ t hrun .messageThrew
    cases hrun
    exact absurd (hcount rfl (by decide) (by decide)) (by decide)

end CohesionIpc.Stream
