import CohesionIpc.Foundation.Transition
import CohesionIpc.Model.SpawnConversation
import CohesionIpc.Verification.Transport.Loop
import CohesionIpc.Verification.Transport.RoundTrip

/-! A spawned server and the session of its client, for every interleaving of their threads: what
is said arrives. -/

namespace CohesionIpc.Spawn

open Transition

variable {host : ByteOrder} {capacity : ℕ} {s t : Conversation}

def ClientEvent.Short : ClientEvent → Prop
  | .ownerWrites m | .inboundWrites m => m.length < 2 ^ 32
  | .ownerReturns | .inboundWritten | .flushes _ | .pipeBreaks | .destroy | .joins | .fills _
  | .reads | .messageReturns | .inboundThrows | .loopEnds | .disconnectReturns | .waited => True

def ServerEvent.Short : ServerEvent → Prop
  | .sessionWrites m => m.length < 2 ^ 32
  | .sessionCreated | .flushes _ | .fills _ | .reads | .messageReturns | .sessionThrows
  | .loopEnds | .mainReturns => True

/-- The lengths of the messages fit into the headers. -/
def Event.Short : Event → Prop
  | .client e => ClientEvent.Short e
  | .server e => ServerEvent.Short e
  | .heir _ => True

namespace Conversation

/-! ## The steps -/

theorem outbound_iff : s.outbound = true ↔ s.owner = .idle ∨ s.owner = .inMessage :=
  decide_eq_true_iff

theorem outbound_eq_false : s.outbound = false ↔ s.owner ≠ .idle ∧ s.owner ≠ .inMessage := by
  rw [outbound, decide_eq_false_iff_not, not_or]

theorem inInbound_iff :
    s.inInbound = true ↔ s.inbound.stage = .inMessage ∨ s.thread = .inDisconnect :=
  decide_eq_true_iff

theorem inSession_iff : s.inSession = true ↔ s.main = .creating ∨
    s.main = .reading ∧ s.session.stage = .inMessage ∨ s.main = .inDisconnect :=
  decide_eq_true_iff

theorem exited_iff : s.exited = true ↔ ∃ how, s.main = .exited how := by
  cases hmain : s.main with
  | exited how => simp [exited, hmain]
  | creating | reading | inDisconnect => simp [exited, hmain]

theorem exited_eq_false_of_inSession (h : s.inSession = true) : s.exited = false := by
  rcases inSession_iff.mp h with hmain | ⟨hmain, -⟩ | hmain <;> rw [exited, hmain]

/-- The steps of the client, one rule per branch. -/
inductive ClientTaken (host : ByteOrder) (capacity : ℕ) (s : Conversation) :
    ClientEvent → Conversation → Prop
  | ownerWrites (m : List UInt8) (howner : s.owner = .idle) (hreplying : s.replying = false) :
      ClientTaken host capacity s (.ownerWrites m) { s with
        owner := .inMessage
        toServer := s.toServer.put (ClientSession.message host m)
        sentByClient := s.sentByClient ++ [m] }
  | ownerReturns (howner : s.owner = .inMessage) (hflushed : s.toServer.unflushed = []) :
      ClientTaken host capacity s .ownerReturns { s with owner := .idle }
  | inboundWrites (m : List UInt8) (hin : s.inInbound = true) (hreplying : s.replying = false)
      (howner : s.owner = .idle) : ClientTaken host capacity s (.inboundWrites m) { s with
        replying := true
        toServer := s.toServer.put (ClientSession.message host m)
        sentByClient := s.sentByClient ++ [m] }
  | dies (e : ClientEvent) (he : e = .inboundThrows ∨ ∃ m, e = .inboundWrites m) :
      ClientTaken host capacity s e { s with owner := .killed }
  | pipeBreaks (hwriting : s.toServer.unflushed ≠ []) :
      ClientTaken host capacity s .pipeBreaks { s with owner := .killed }
  | inboundWritten (hreplying : s.replying = true) (hflushed : s.toServer.unflushed = []) :
      ClientTaken host capacity s .inboundWritten { s with replying := false }
  | flushes (n : ℕ) {p : Pipe UInt8} (hexited : s.exited = false)
      (hp : s.toServer.flush capacity n = some p) :
      ClientTaken host capacity s (.flushes n) { s with toServer := p }
  | destroy (howner : s.owner = .idle) (hreplying : s.replying = false) :
      ClientTaken host capacity s .destroy
        { s with owner := .joining, toServer := s.toServer.release (0 < s.heirs) }
  | joins (howner : s.owner = .joining) (hthread : s.thread = .ended) :
      ClientTaken host capacity s .joins { s with owner := .destroyed }
  | fills (n : ℕ) {wanted : ℕ} {p : Pipe UInt8} (hwanted : s.inbound.stage.requested = some wanted)
      (hp : s.toClient.fill wanted n = some p) :
      ClientTaken host capacity s (.fills n) { s with toClient := p }
  | reads {p : Pipe UInt8} {l : MessageLoop}
      (hr : readReturns host s.toClient s.inbound = some (p, l)) :
      ClientTaken host capacity s .reads { s with toClient := p, inbound := l }
  | messageReturns (hstage : s.inbound.stage = .inMessage) (hreplying : s.replying = false) :
      ClientTaken host capacity s .messageReturns { s with inbound := s.inbound.messageReturned }
  | disconnects (hthread : s.thread = .reading) (hstage : s.inbound.stage = .ended)
      (houtbound : s.outbound = true) : ClientTaken host capacity s .loopEnds
        { s with thread := .inDisconnect, inbound := s.inbound.disconnect }
  | staysSilent (hthread : s.thread = .reading) (hstage : s.inbound.stage = .ended)
      (houtbound : s.outbound = false) :
      ClientTaken host capacity s .loopEnds { s with thread := .waiting }
  | disconnectReturns (hthread : s.thread = .inDisconnect) (hreplying : s.replying = false) :
      ClientTaken host capacity s .disconnectReturns { s with thread := .waiting }
  | waited {how : Termination} (hthread : s.thread = .waiting) (hmain : s.main = .exited how) :
      ClientTaken host capacity s .waited
        { s with thread := .ended, exitHandler := s.exitHandler ++ [how.siStatus] }

/-- The steps of the server likewise. -/
inductive ServerTaken (host : ByteOrder) (capacity : ℕ) (s : Conversation) :
    ServerEvent → Conversation → Prop
  | sessionCreated (hmain : s.main = .creating) (hflushed : s.toClient.unflushed = []) :
      ServerTaken host capacity s .sessionCreated { s with main := .reading }
  | sessionWrites (m : List UInt8) (hin : s.inSession = true)
      (hflushed : s.toClient.unflushed = []) : ServerTaken host capacity s (.sessionWrites m)
        { s with
          toClient := s.toClient.put (PipeChannel.message host m)
          sentByServer := s.sentByServer ++ [m] }
  | flushes (n : ℕ) {p : Pipe UInt8} (hp : s.toClient.flush capacity n = some p) :
      ServerTaken host capacity s (.flushes n) { s with toClient := p }
  | fills (n : ℕ) {wanted : ℕ} {p : Pipe UInt8} (hmain : s.main = .reading)
      (hwanted : s.session.stage.requested = some wanted)
      (hp : s.toServer.fill wanted n = some p) :
      ServerTaken host capacity s (.fills n) { s with toServer := p }
  | reads {p : Pipe UInt8} {l : MessageLoop} (hmain : s.main = .reading)
      (hr : readReturns host s.toServer s.session = some (p, l)) :
      ServerTaken host capacity s .reads { s with toServer := p, session := l }
  | messageReturns (hmain : s.main = .reading) (hstage : s.session.stage = .inMessage)
      (hflushed : s.toClient.unflushed = []) : ServerTaken host capacity s .messageReturns
        { s with session := s.session.messageReturned }
  | sessionThrows (hmain : s.exited = false) (hflushed : s.toClient.unflushed = []) :
      ServerTaken host capacity s .sessionThrows (s.exit .aborted)
  | loopEnds (hmain : s.main = .reading) (hstage : s.session.stage = .ended) :
      ServerTaken host capacity s .loopEnds
        { s with main := .inDisconnect, session := s.session.disconnect }
  | mainReturns (hmain : s.main = .inDisconnect) (hflushed : s.toClient.unflushed = []) :
      ServerTaken host capacity s .mainReturns (s.exit .returned)

/-- The other processes likewise. -/
inductive HeirTaken (s : Conversation) : HeirEvent → Conversation → Prop
  | started (hheld : s.outbound = true ∨ 0 < s.heirs) :
      HeirTaken s .started { s with heirs := s.heirs + 1 }
  | ended {heirs : ℕ} (hheirs : s.heirs = heirs + 1) : HeirTaken s .ended
      { s with heirs := heirs, toServer := s.toServer.release (s.outbound ∨ 0 < heirs) }

theorem clientStep_taken {e : ClientEvent} (h : s.clientStep host capacity e = some t) :
    ClientTaken host capacity s e t := by
  cases e with
  | ownerWrites m =>
      simp only [clientStep, Option.ite_none_right_eq_some, Option.some.injEq] at h
      obtain ⟨⟨howner, hreplying⟩, rfl⟩ := h
      exact .ownerWrites m howner hreplying
  | ownerReturns =>
      simp only [clientStep, Option.ite_none_right_eq_some, Option.some.injEq] at h
      obtain ⟨⟨howner, hflushed⟩, rfl⟩ := h
      exact .ownerReturns howner hflushed
  | inboundWrites m =>
      simp only [clientStep, Option.ite_none_right_eq_some] at h
      obtain ⟨⟨hin, hreplying, howner⟩, h⟩ := h
      split at h
      · rename_i houtbound
        cases h
        exact .inboundWrites m hin hreplying ((outbound_iff.mp houtbound).resolve_right howner)
      · cases h
        exact .dies _ (.inr ⟨m, rfl⟩)
  | inboundWritten =>
      simp only [clientStep, Option.ite_none_right_eq_some, Option.some.injEq] at h
      obtain ⟨⟨hreplying, hflushed⟩, rfl⟩ := h
      exact .inboundWritten hreplying hflushed
  | flushes n =>
      simp only [clientStep, Option.ite_none_left_eq_some, Option.map_eq_some_iff] at h
      obtain ⟨hexited, p, hp, rfl⟩ := h
      exact .flushes n (Bool.eq_false_iff.mpr hexited) hp
  | pipeBreaks =>
      simp only [clientStep, Option.ite_none_right_eq_some, Option.some.injEq] at h
      obtain ⟨⟨-, hwriting⟩, rfl⟩ := h
      exact .pipeBreaks hwriting
  | destroy =>
      simp only [clientStep, Option.ite_none_right_eq_some, Option.some.injEq] at h
      obtain ⟨⟨howner, hreplying⟩, rfl⟩ := h
      exact .destroy howner hreplying
  | joins =>
      simp only [clientStep, Option.ite_none_right_eq_some, Option.some.injEq] at h
      obtain ⟨⟨howner, hthread⟩, rfl⟩ := h
      exact .joins howner hthread
  | fills n =>
      simp only [clientStep, Option.bind_eq_some_iff, Option.map_eq_some_iff] at h
      obtain ⟨wanted, hwanted, p, hp, rfl⟩ := h
      exact .fills n hwanted hp
  | reads =>
      simp only [clientStep, Option.map_eq_some_iff] at h
      obtain ⟨⟨p, l⟩, hr, rfl⟩ := h
      exact .reads hr
  | messageReturns =>
      simp only [clientStep, Option.ite_none_right_eq_some, Option.some.injEq] at h
      obtain ⟨⟨hstage, hreplying⟩, rfl⟩ := h
      exact .messageReturns hstage hreplying
  | inboundThrows =>
      simp only [clientStep, Option.ite_none_right_eq_some, Option.some.injEq] at h
      obtain ⟨-, rfl⟩ := h
      exact .dies _ (.inl rfl)
  | loopEnds =>
      simp only [clientStep, Option.ite_none_right_eq_some] at h
      obtain ⟨⟨hthread, hstage⟩, h⟩ := h
      split at h
      · rename_i houtbound
        cases h
        exact .disconnects hthread hstage houtbound
      · rename_i houtbound
        cases h
        exact .staysSilent hthread hstage (Bool.eq_false_iff.mpr houtbound)
  | disconnectReturns =>
      simp only [clientStep, Option.ite_none_right_eq_some, Option.some.injEq] at h
      obtain ⟨⟨hthread, hreplying⟩, rfl⟩ := h
      exact .disconnectReturns hthread hreplying
  | waited =>
      simp only [clientStep] at h
      split at h
      · rename_i how hthread hmain
        cases h
        exact .waited hthread hmain
      · cases h

theorem serverStep_taken {e : ServerEvent} (h : s.serverStep host capacity e = some t) :
    ServerTaken host capacity s e t := by
  cases e with
  | sessionCreated =>
      simp only [serverStep, Option.ite_none_right_eq_some, Option.some.injEq] at h
      obtain ⟨⟨hmain, hflushed⟩, rfl⟩ := h
      exact .sessionCreated hmain hflushed
  | sessionWrites m =>
      simp only [serverStep, Option.ite_none_right_eq_some, Option.some.injEq] at h
      obtain ⟨⟨hin, hflushed⟩, rfl⟩ := h
      exact .sessionWrites m hin hflushed
  | flushes n =>
      simp only [serverStep, Option.map_eq_some_iff] at h
      obtain ⟨p, hp, rfl⟩ := h
      exact .flushes n hp
  | fills n =>
      simp only [serverStep, Option.ite_none_right_eq_some, Option.bind_eq_some_iff,
        Option.map_eq_some_iff] at h
      obtain ⟨hmain, wanted, hwanted, p, hp, rfl⟩ := h
      exact .fills n hmain hwanted hp
  | reads =>
      simp only [serverStep, Option.ite_none_right_eq_some, Option.map_eq_some_iff] at h
      obtain ⟨hmain, ⟨p, l⟩, hr, rfl⟩ := h
      exact .reads hmain hr
  | messageReturns =>
      simp only [serverStep, Option.ite_none_right_eq_some, Option.some.injEq] at h
      obtain ⟨⟨hmain, hstage, hflushed⟩, rfl⟩ := h
      exact .messageReturns hmain hstage hflushed
  | sessionThrows =>
      simp only [serverStep, Option.ite_none_right_eq_some, Option.some.injEq] at h
      obtain ⟨⟨hin | ⟨hmain, -⟩, hflushed⟩, rfl⟩ := h
      · exact .sessionThrows (exited_eq_false_of_inSession hin) hflushed
      · exact .sessionThrows (by rw [exited, hmain]) hflushed
  | loopEnds =>
      simp only [serverStep, Option.ite_none_right_eq_some, Option.some.injEq] at h
      obtain ⟨⟨hmain, hstage⟩, rfl⟩ := h
      exact .loopEnds hmain hstage
  | mainReturns =>
      simp only [serverStep, Option.ite_none_right_eq_some, Option.some.injEq] at h
      obtain ⟨⟨hmain, hflushed⟩, rfl⟩ := h
      exact .mainReturns hmain hflushed

theorem heirStep_taken {e : HeirEvent} (h : s.heirStep e = some t) : HeirTaken s e t := by
  cases e with
  | started =>
      simp only [heirStep, Option.ite_none_right_eq_some, Option.some.injEq] at h
      obtain ⟨hheld, rfl⟩ := h
      exact .started hheld
  | ended =>
      simp only [heirStep] at h
      split at h
      · cases h
      · rename_i heirs hheirs
        cases h
        exact .ended hheirs

/-! ## Who is where -/

/-- What the stages of the two processes say about each other. -/
structure Control (s : Conversation) : Prop where
  writable : s.owner ≠ .killed →
    (s.toServer.writable = true ↔ s.outbound = true ∨ 0 < s.heirs)
  replying : s.owner ≠ .killed → s.replying = true → s.owner = .idle ∧ s.inInbound = true
  writing : s.owner ≠ .killed → s.toServer.unflushed ≠ [] →
    s.owner = .inMessage ∨ s.replying = true
  answerable : s.toClient.writable = !s.exited
  answering : s.toClient.unflushed ≠ [] → s.inSession = true
  creating : s.main = .creating → s.session.stage = .header
  /-- `read_messages` has returned. -/
  leaving : s.main = .inDisconnect ∨ s.main = .exited .returned → s.session.stage = .ended
  sessionEnded : s.session.stage = .ended → s.outbound = false ∧ s.heirs = 0
  threadLeaving : s.thread ≠ .reading → s.inbound.stage = .ended
  inboundEnded : s.inbound.stage = .ended → s.exited = true
  exitHandler : ∀ how, s.main = .exited how →
    s.exitHandler = if s.thread = .ended then [how.siStatus] else []
  notWaited : s.thread ≠ .ended → s.exitHandler = []
  destroyed : s.owner = .destroyed → s.thread = .ended

theorem control_init (host : ByteOrder) (clientSize serverSize : UInt32) :
    (init host clientSize serverSize).Control := by
  constructor <;> simp [init, outbound, inSession, exited, Pipe.empty, MessageLoop.init]

/-- Nobody has the write end any more. -/
theorem Control.closed (hC : s.Control) (halive : s.owner ≠ .killed)
    (hclosed : s.toServer.writable = false) : s.outbound = false ∧ s.heirs = 0 := by
  have hnot : ¬ (s.outbound = true ∨ 0 < s.heirs) := by
    rw [← hC.writable halive, hclosed]
    exact Bool.false_ne_true
  rw [not_or, Bool.not_eq_true, Nat.not_lt, Nat.le_zero] at hnot
  exact hnot

/-- `read_messages` in the server goes on while the client has the end. -/
theorem Control.sessionGoesOn (hC : s.Control) (hout : s.outbound = true) :
    s.session.stage ≠ .ended := by
  intro h
  have hclosed := (hC.sessionEnded h).1
  rw [hout] at hclosed
  cases hclosed

theorem readReturns_cases {p q : Pipe UInt8} {l l' : MessageLoop}
    (h : readReturns host p l = some (q, l')) : ∃ n bytes, l.stage.requested = some n ∧
      p.read n = some (bytes, q) ∧ l' = l.returned host false bytes := by
  simp only [readReturns, Option.bind_eq_some_iff, Option.map_eq_some_iff, Prod.mk.injEq] at h
  obtain ⟨n, hn, ⟨bytes, q'⟩, hread, rfl, rfl⟩ := h
  exact ⟨n, bytes, hn, hread, rfl⟩

theorem stage_of_requested {l : MessageLoop} {n : ℕ} (h : l.stage.requested = some n) :
    l.stage ≠ .inMessage ∧ l.stage ≠ .ended := by
  cases hl : l.stage with
  | header | payload => simp
  | inMessage | ended =>
      rw [hl] at h
      cases h

/-- A read comes to an end of the loop only where the stream has ended. -/
theorem writable_of_ended {p q : Pipe UInt8} {l l' : MessageLoop}
    (h : readReturns host p l = some (q, l')) (hended : l'.stage = .ended) :
    p.writable = false := by
  obtain ⟨n, bytes, hn, hread, rfl⟩ := readReturns_cases h
  obtain ⟨-, -, -, ⟨hfull, rfl, -⟩ | ⟨-, -, hwritable, -⟩⟩ := Pipe.read_cases hread
  · cases hstage : l.stage with
    | header =>
        rw [hstage] at hn
        cases hn
        simp only [MessageLoop.returned, hstage, if_pos (List.length_take_of_le hfull)] at hended
        cases hended
    | payload k =>
        simp only [MessageLoop.returned, hstage] at hended
        cases hended
    | inMessage => exact absurd hstage (stage_of_requested hn).1
    | ended => exact absurd hstage (stage_of_requested hn).2
  · exact hwritable

theorem control_client {e : ClientEvent} (hC : s.Control) (halive : s.owner ≠ .killed)
    (h : ClientTaken host capacity s e t) : t.Control := by
  have hwritable := hC.writable halive
  have hreply := hC.replying halive
  have hwriting := hC.writing halive
  cases h with
  | ownerWrites m howner hreplying =>
      have hout : s.outbound = true := outbound_iff.mpr (.inl howner)
      refine { hC with
        writable := fun _ => iff_of_true (hwritable.mpr (.inl hout)) (.inl rfl)
        replying := fun _ h => absurd h (by simp [hreplying])
        writing := fun _ _ => .inl rfl
        sessionEnded := fun h => absurd h (hC.sessionGoesOn hout)
        destroyed := fun h => by cases h }
  | ownerReturns howner hflushed =>
      have hout : s.outbound = true := outbound_iff.mpr (.inr howner)
      refine { hC with
        writable := fun _ => iff_of_true (hwritable.mpr (.inl hout)) (.inl rfl)
        replying := fun _ h => absurd (hreply h).1 (by simp [howner])
        writing := fun _ h => absurd hflushed h
        sessionEnded := fun h => absurd h (hC.sessionGoesOn hout)
        destroyed := fun h => by cases h }
  | inboundWrites m hin hreplying howner =>
      exact { hC with
        writable := fun _ => hwritable
        replying := fun _ _ => ⟨howner, hin⟩
        writing := fun _ _ => .inr rfl }
  | dies | pipeBreaks =>
      exact { hC with
        writable := fun h => absurd rfl h
        replying := fun h => absurd rfl h
        writing := fun h => absurd rfl h
        sessionEnded := fun h => ⟨rfl, (hC.sessionEnded h).2⟩
        destroyed := fun h => by cases h }
  | inboundWritten hreplying hflushed =>
      exact { hC with
        replying := fun _ h => by cases h
        writing := fun _ h => absurd hflushed h }
  | flushes n hexited hp =>
      obtain ⟨-, hw, -, hunflushed⟩ := Pipe.flush_cases hp
      refine { hC with writable := fun _ => hw ▸ hwritable, writing := fun _ h => ?_ }
      apply hwriting
      intro hnil
      rw [hunflushed, hnil] at h
      exact h List.drop_nil
  | destroy howner hreplying =>
      have hout : s.outbound = true := outbound_iff.mpr (.inl howner)
      have hopen := hwritable.mpr (.inl hout)
      refine { hC with
        writable := fun _ => ?_
        replying := fun _ h => absurd h (by simp [hreplying])
        writing := fun _ h => ?_
        sessionEnded := fun h => absurd h (hC.sessionGoesOn hout)
        destroyed := fun h => by cases h }
      · rw [Pipe.writable_release hopen, decide_eq_true_iff]
        simp [outbound]
      · rcases hwriting h with h | h
        · rw [howner] at h
          cases h
        · exact .inr h
  | joins howner hthread =>
      have hout : s.outbound = false := outbound_eq_false.mpr (by simp [howner])
      refine { hC with
        writable := fun _ => by rw [hwritable, hout]; rfl
        replying := fun _ h => absurd (hreply h).1 (by simp [howner])
        writing := fun _ h => ?_
        sessionEnded := fun h => ⟨rfl, (hC.sessionEnded h).2⟩
        destroyed := fun _ => hthread }
      rcases hwriting h with h | h
      · rw [howner] at h
        cases h
      · exact .inr h
  | fills n hwanted hp =>
      obtain ⟨-, hw, -, hunflushed⟩ := Pipe.fill_cases hp
      exact { hC with
        answerable := hw.trans hC.answerable
        answering := fun h => hC.answering (hunflushed ▸ h) }
  | reads hr =>
      obtain ⟨n, bytes, hn, hread, -⟩ := readReturns_cases hr
      obtain ⟨hw, hunflushed, -⟩ := Pipe.read_cases hread
      obtain ⟨hmessage, hended⟩ := stage_of_requested hn
      have hthread : s.thread = .reading := by
        by_contra h
        exact hended (hC.threadLeaving h)
      refine { hC with
        replying := fun _ h => ?_
        answerable := hw.trans hC.answerable
        answering := fun h => hC.answering (hunflushed ▸ h)
        threadLeaving := fun h => absurd hthread h
        inboundEnded := fun h => ?_ }
      · rcases inInbound_iff.mp (hreply h).2 with hin | hin
        · exact absurd hin hmessage
        · rw [hthread] at hin
          cases hin
      · have hclosed := hC.answerable.symm.trans (writable_of_ended hr h)
        have hexited : s.exited = true := by simpa using hclosed
        exact hexited
  | messageReturns hstage hreplying =>
      refine { hC with
        replying := fun _ h => absurd h (by simp [hreplying])
        threadLeaving := fun h => ?_
        inboundEnded := fun h => by cases h }
      have hended := hC.threadLeaving h
      rw [hstage] at hended
      cases hended
  | disconnects hthread hstage houtbound =>
      refine { hC with
        replying := fun _ h => ⟨(hreply h).1, inInbound_iff.mpr (.inr rfl)⟩
        threadLeaving := fun _ => hstage
        exitHandler := fun how hhow => ?_
        notWaited := fun _ => hC.notWaited (by simp [hthread])
        destroyed := fun h => ?_ }
      · have hnone := hC.exitHandler how hhow
        rwa [hthread] at hnone
      · rw [outbound_iff, h] at houtbound
        simp at houtbound
  | staysSilent hthread hstage houtbound =>
      have hidle := (outbound_eq_false.mp houtbound).1
      refine { hC with
        replying := fun _ h => absurd (hreply h).1 hidle
        threadLeaving := fun _ => hstage
        exitHandler := fun how hhow => ?_
        notWaited := fun _ => hC.notWaited (by simp [hthread])
        destroyed := fun h => ?_ }
      · have hnone := hC.exitHandler how hhow
        rwa [hthread] at hnone
      · have hended := hC.destroyed h
        rw [hthread] at hended
        cases hended
  | disconnectReturns hthread hreplying =>
      refine { hC with
        replying := fun _ h => absurd h (by simp [hreplying])
        threadLeaving := fun _ => hC.threadLeaving (by simp [hthread])
        exitHandler := fun how hhow => ?_
        notWaited := fun _ => hC.notWaited (by simp [hthread])
        destroyed := fun h => ?_ }
      · have hnone := hC.exitHandler how hhow
        rwa [hthread] at hnone
      · have hended := hC.destroyed h
        rw [hthread] at hended
        cases hended
  | waited hthread hmain =>
      have hended := hC.threadLeaving (by simp [hthread])
      have hnone := hC.notWaited (by simp [hthread])
      refine { hC with
        replying := fun _ h => ?_
        threadLeaving := fun _ => hended
        exitHandler := fun how hhow => ?_
        notWaited := fun h => absurd rfl h
        destroyed := fun _ => rfl }
      · rcases inInbound_iff.mp (hreply h).2 with hin | hin
        · rw [hended] at hin
          cases hin
        · rw [hthread] at hin
          cases hin
      · rw [hnone, if_pos rfl]
        cases hmain.symm.trans hhow
        rfl

theorem Control.exit {how : Termination} (hC : s.Control) (hmain : s.exited = false)
    (hflushed : s.toClient.unflushed = [])
    (hleaving : how = .returned → s.session.stage = .ended) : (s.exit how).Control := by
  have hthread : s.thread ≠ .ended := by
    intro h
    have hexited := hC.inboundEnded (hC.threadLeaving (by simp [h]))
    rw [hmain] at hexited
    cases hexited
  exact { hC with
    answerable := rfl
    answering := fun h => absurd hflushed h
    creating := fun h => by cases h
    leaving := fun h => hleaving (by simpa [Conversation.exit] using h)
    inboundEnded := fun _ => rfl
    exitHandler := fun _ _ => (hC.notWaited hthread).trans (if_neg hthread).symm }

theorem control_server {e : ServerEvent} (hC : s.Control) (halive : s.owner ≠ .killed)
    (h : ServerTaken host capacity s e t) : t.Control := by
  cases h with
  | sessionCreated hmain hflushed =>
      refine { hC with
        answerable := ?_
        answering := fun h => absurd hflushed h
        creating := fun h => by cases h
        leaving := fun h => by simp at h
        inboundEnded := fun h => ?_
        exitHandler := fun how h => by cases h }
      · have hw := hC.answerable
        rwa [exited, hmain] at hw
      · have hexited := hC.inboundEnded h
        rw [exited, hmain] at hexited
        cases hexited
  | sessionWrites m hin hflushed =>
      exact { hC with answering := fun _ => hin }
  | flushes n hp =>
      obtain ⟨-, hw, -, hunflushed⟩ := Pipe.flush_cases hp
      refine { hC with answerable := hw.trans hC.answerable, answering := fun h => ?_ }
      apply hC.answering
      intro hnil
      rw [hunflushed, hnil] at h
      exact h List.drop_nil
  | fills n hmain hwanted hp =>
      obtain ⟨-, hw, -, hunflushed⟩ := Pipe.fill_cases hp
      exact { hC with
        writable := fun h => hw ▸ hC.writable h
        writing := fun h hne => hC.writing h (hunflushed ▸ hne) }
  | reads hmain hr =>
      obtain ⟨n, bytes, hn, hread, -⟩ := readReturns_cases hr
      obtain ⟨hw, hunflushed, -⟩ := Pipe.read_cases hread
      obtain ⟨hmessage, -⟩ := stage_of_requested hn
      refine { hC with
        writable := fun h => hw ▸ hC.writable h
        writing := fun h hne => hC.writing h (hunflushed ▸ hne)
        answering := fun h => ?_
        creating := fun h => by rw [hmain] at h; cases h
        leaving := fun h => by simp [hmain] at h
        sessionEnded := fun h => hC.closed halive (writable_of_ended hr h) }
      have hin := inSession_iff.mp (hC.answering h)
      simp [hmain, hmessage] at hin
  | messageReturns hmain hstage hflushed =>
      exact { hC with
        answering := fun h => absurd hflushed h
        creating := fun h => by rw [hmain] at h; cases h
        leaving := fun h => by simp [hmain] at h
        sessionEnded := fun h => by cases h }
  | sessionThrows hmain hflushed => exact hC.exit hmain hflushed fun h => by cases h
  | loopEnds hmain hstage =>
      refine { hC with
        answerable := ?_
        answering := fun _ => inSession_iff.mpr (.inr (.inr rfl))
        creating := fun h => by cases h
        leaving := fun _ => hstage
        inboundEnded := fun h => ?_
        exitHandler := fun how h => by cases h }
      · have hw := hC.answerable
        rwa [exited, hmain] at hw
      · have hexited := hC.inboundEnded h
        rw [exited, hmain] at hexited
        cases hexited
  | mainReturns hmain hflushed =>
      exact hC.exit (by rw [exited, hmain]) hflushed fun _ => hC.leaving (.inl hmain)

/-- The end of a process that has inherited the end of the pipe can end the stream. -/
theorem control_heir {e : HeirEvent} (hC : s.Control) (halive : s.owner ≠ .killed)
    (h : HeirTaken s e t) : t.Control := by
  have hwritable := hC.writable halive
  cases h with
  | started hheld =>
      refine { hC with
        writable := fun _ => iff_of_true (hwritable.mpr hheld) (.inr (Nat.succ_pos _))
        sessionEnded := fun h => ?_ }
      obtain ⟨hout, hheirs⟩ := hC.sessionEnded h
      simp [hout, hheirs] at hheld
  | @ended heirs hheirs =>
      have hopen : s.toServer.writable = true := hwritable.mpr (.inr (by omega))
      refine { hC with
        writable := fun _ => ?_
        sessionEnded := fun h => ?_ }
      · rw [Pipe.writable_release hopen, decide_eq_true_iff]
        rfl
      · have hnone := (hC.sessionEnded h).2
        omega

/-! ## What has been heard -/

/-- Both loops read what the other process has written, and only a server that has aborted makes
the session call `disconnect`. -/
structure Heard (host : ByteOrder) (s : Conversation) : Prop where
  session : s.session.Follows host s.toServer.link s.sentByClient
  inbound : s.inbound.Follows host s.toClient.link s.sentByServer
  sessionReads : s.main = .creating ∨ s.main = .reading →
    s.session.Reads host s.toServer.link s.sentByClient
  inboundReads : s.thread = .reading → s.inbound.Reads host s.toClient.link s.sentByServer
  disconnected : s.main = .inDisconnect ∨ s.main = .exited .returned → .disconnect ∈ s.session.calls
  aborted : .disconnect ∈ s.inbound.calls → s.main = .exited .aborted
  told : s.thread ≠ .reading → s.outbound = true → .disconnect ∈ s.inbound.calls

theorem heard_init (host : ByteOrder) (clientSize serverSize : UInt32) :
    (init host clientSize serverSize).Heard host := by
  have hclient := MessageLoop.reads_init host host clientSize
  have hserver := MessageLoop.reads_init host host serverSize
  refine ⟨hserver.follows, hclient.follows, fun _ => hserver, fun _ => hclient, ?_, ?_, ?_⟩
  · intro h
    simp [init] at h
  · exact fun h => absurd h hclient.disconnect_notMem
  · exact fun h => absurd rfl h

theorem reads_readReturns {p q : Pipe UInt8} {l l' : MessageLoop} {sent : List (List UInt8)}
    (h : l.Reads host p.link sent) (hr : readReturns host p l = some (q, l'))
    (hflushed : p.writable = false → p.unflushed = []) : l'.Reads host q.link sent := by
  obtain ⟨n, bytes, hn, hread, rfl⟩ := readReturns_cases hr
  obtain ⟨-, hunflushed, hcontent, ⟨hfull, rfl, hahead⟩ | ⟨hless, hnil, hwritable, rfl, hahead⟩⟩ :=
    Pipe.read_cases hread
  · have hlink : q.link = { p.link with arrived := p.link.arrived.drop n } := by
      rw [Pipe.link, hahead, hcontent, hunflushed]
      rfl
    rw [hlink]
    cases hstage : l.stage with
    | header =>
        rw [hstage] at hn
        cases hn
        exact (MessageLoop.Reads.obtainsHeader host false h hstage hfull).1
    | payload k =>
        rw [hstage] at hn
        cases hn
        exact (h.obtainsPayload host false hstage hfull).1
    | inMessage => exact absurd hstage (stage_of_requested hn).1
    | ended => exact absurd hstage (stage_of_requested hn).2
  · have hlink : q.link = ⟨[], []⟩ := by
      rw [Pipe.link, hahead, hcontent, hunflushed, hnil, hflushed hwritable]
      rfl
    rw [hlink]
    apply (h.obtainsLess host false hn hless _).1
    rw [Pipe.link, hnil, hflushed hwritable]
    rfl

theorem fill_stream {p q : Pipe UInt8} {wanted n : ℕ} (h : p.fill wanted n = some q) :
    q.link.arrived ++ q.link.inFlight = p.link.arrived ++ p.link.inFlight := by
  rw [(Pipe.fill_cases h).1, Link.transfer, List.append_assoc, List.take_append_drop]

/-- The client has written a message. -/
theorem Heard.clientWrites (hH : s.Heard host) (hC : s.Control) (hout : s.outbound = true)
    {m : List UInt8} (hm : m.length < 2 ^ 32) :
    let link := (s.toServer.put (ClientSession.message host m)).link
    s.session.Follows host link (s.sentByClient ++ [m]) ∧
      (s.main = .creating ∨ s.main = .reading →
        s.session.Reads host link (s.sentByClient ++ [m])) := by
  have hstage := hC.sessionGoesOn hout
  rw [Pipe.link_put, ClientSession.message_eq_frame host hm]
  exact ⟨hH.session.write hstage hm, fun h => (hH.sessionReads h).write hstage hm⟩

theorem heard_client {e : ClientEvent} (hC : s.Control) (hH : s.Heard host) (he : e.Short)
    (h : ClientTaken host capacity s e t) : t.Heard host := by
  cases h with
  | ownerWrites m howner hreplying =>
      have hout : s.outbound = true := outbound_iff.mpr (.inl howner)
      obtain ⟨hfollows, hreads⟩ := hH.clientWrites hC hout he
      exact { hH with
        session := hfollows
        sessionReads := hreads
        told := fun h _ => hH.told h hout }
  | inboundWrites m hin hreplying howner =>
      obtain ⟨hfollows, hreads⟩ := hH.clientWrites hC (outbound_iff.mpr (.inl howner)) he
      exact { hH with session := hfollows, sessionReads := hreads }
  | ownerReturns howner hflushed =>
      exact { hH with told := fun h _ => hH.told h (outbound_iff.mpr (.inr howner)) }
  | dies | pipeBreaks | joins | destroy =>
      exact { hH with told := fun _ h => by simp [outbound] at h }
  | inboundWritten hreplying hflushed => exact { hH with }
  | flushes n hexited hp =>
      have hlink := (Pipe.flush_cases hp).1
      exact { hH with
        session := by rw [hlink]; exact hH.session
        sessionReads := by rw [hlink]; exact hH.sessionReads }
  | fills n hwanted hp =>
      have hstream := fill_stream hp
      exact { hH with
        inbound := hH.inbound.move hstream
        inboundReads := fun h => (hH.inboundReads h).move hstream }
  | reads hr =>
      obtain ⟨n, bytes, hn, -⟩ := readReturns_cases hr
      have hthread : s.thread = .reading := by
        by_contra h
        exact (stage_of_requested hn).2 (hC.threadLeaving h)
      have hreads := reads_readReturns (hH.inboundReads hthread) hr fun hclosed => by
        by_contra hne
        have hexited := exited_eq_false_of_inSession (hC.answering hne)
        rw [hC.answerable, hexited] at hclosed
        cases hclosed
      exact { hH with
        inbound := hreads.follows
        inboundReads := fun _ => hreads
        aborted := fun h => absurd h hreads.disconnect_notMem
        told := fun h => absurd hthread h }
  | messageReturns hstage hreplying =>
      have hthread : s.thread = .reading := by
        by_contra h
        have hended := hC.threadLeaving h
        rw [hstage] at hended
        cases hended
      have hreads := (hH.inboundReads hthread).messageReturned hstage
      exact { hH with
        inbound := hreads.follows
        inboundReads := fun _ => hreads
        aborted := fun h => absurd h hreads.disconnect_notMem
        told := fun h => absurd hthread h }
  | disconnects hthread hstage houtbound =>
      refine { hH with
        inbound := (hH.inboundReads hthread).disconnect hstage
        inboundReads := fun h => by cases h
        aborted := fun _ => ?_
        told := fun _ _ => List.mem_append_right _ List.mem_cons_self }
      obtain ⟨how, hmain⟩ := exited_iff.mp (hC.inboundEnded hstage)
      cases how with
      | aborted => exact hmain
      | returned => exact absurd (hC.leaving (.inr hmain)) (hC.sessionGoesOn houtbound)
  | staysSilent hthread hstage houtbound =>
      refine { hH with
        inboundReads := fun h => by cases h
        told := fun _ h => ?_ }
      cases houtbound.symm.trans h
  | disconnectReturns hthread hreplying =>
      exact { hH with
        inboundReads := fun h => by cases h
        told := fun _ => hH.told (by simp [hthread]) }
  | waited hthread hmain =>
      exact { hH with
        inboundReads := fun h => by cases h
        told := fun _ => hH.told (by simp [hthread]) }

theorem heard_server {e : ServerEvent} (hC : s.Control) (hH : s.Heard host)
    (halive : s.owner ≠ .killed) (he : e.Short) (h : ServerTaken host capacity s e t) :
    t.Heard host := by
  cases h with
  | sessionCreated hmain hflushed =>
      refine { hH with
        sessionReads := fun _ => hH.sessionReads (.inl hmain)
        disconnected := fun h => by simp at h
        aborted := fun h => ?_ }
      have haborted := hH.aborted h
      rw [hmain] at haborted
      cases haborted
  | sessionWrites m hin hflushed =>
      have hstage : s.inbound.stage ≠ .ended := by
        intro h
        have hexited := hC.inboundEnded h
        rw [exited_eq_false_of_inSession hin] at hexited
        cases hexited
      have hframe := PipeChannel.message_eq_frame host he
      exact { hH with
        inbound := by
          rw [Pipe.link_put, hframe]
          exact hH.inbound.write hstage he
        inboundReads := fun h => by
          rw [Pipe.link_put, hframe]
          exact (hH.inboundReads h).write hstage he }
  | flushes n hp =>
      have hlink := (Pipe.flush_cases hp).1
      exact { hH with
        inbound := by rw [hlink]; exact hH.inbound
        inboundReads := by rw [hlink]; exact hH.inboundReads }
  | fills n hmain hwanted hp =>
      have hstream := fill_stream hp
      exact { hH with
        session := hH.session.move hstream
        sessionReads := fun h => (hH.sessionReads h).move hstream }
  | reads hmain hr =>
      have hreads := reads_readReturns (hH.sessionReads (.inr hmain)) hr fun hclosed => by
        by_contra hne
        have hout := outbound_eq_false.mp (hC.closed halive hclosed).1
        rcases hC.writing halive hne with h | h
        · exact hout.2 h
        · exact hout.1 (hC.replying halive h).1
      exact { hH with
        session := hreads.follows
        sessionReads := fun _ => hreads
        disconnected := fun h => by simp [hmain] at h }
  | messageReturns hmain hstage hflushed =>
      have hreads := (hH.sessionReads (.inr hmain)).messageReturned hstage
      exact { hH with
        session := hreads.follows
        sessionReads := fun _ => hreads
        disconnected := fun h => by simp [hmain] at h }
  | sessionThrows hmain hflushed =>
      exact { hH with
        sessionReads := fun h => by simp [Conversation.exit] at h
        disconnected := fun h => by simp [Conversation.exit] at h
        aborted := fun _ => rfl }
  | loopEnds hmain hstage =>
      refine { hH with
        session := (hH.sessionReads (.inr hmain)).disconnect hstage
        sessionReads := fun h => by simp at h
        disconnected := fun _ => List.mem_append_right _ List.mem_cons_self
        aborted := fun h => ?_ }
      have haborted := hH.aborted h
      rw [hmain] at haborted
      cases haborted
  | mainReturns hmain hflushed =>
      refine { hH with
        sessionReads := fun h => by simp [Conversation.exit] at h
        disconnected := fun _ => hH.disconnected (.inl hmain)
        aborted := fun h => ?_ }
      have haborted := hH.aborted h
      rw [hmain] at haborted
      cases haborted

theorem heard_heir {e : HeirEvent} (hH : s.Heard host) (h : HeirTaken s e t) : t.Heard host := by
  cases h with
  | started | ended => exact { hH with }

/-- What holds in every state that is reached. -/
structure Inv (host : ByteOrder) (s : Conversation) : Prop where
  control : s.Control
  heard : s.Heard host

theorem inv_init (host : ByteOrder) (clientSize serverSize : UInt32) :
    (init host clientSize serverSize).Inv host :=
  ⟨control_init host clientSize serverSize, heard_init host clientSize serverSize⟩

theorem step_client {e : ClientEvent} (h : s.step host capacity (.client e) = some t) :
    s.owner ≠ .killed ∧ ClientTaken host capacity s e t := by
  rw [step, Option.ite_none_left_eq_some] at h
  exact ⟨h.1, clientStep_taken h.2⟩

theorem step_server {e : ServerEvent} (h : s.step host capacity (.server e) = some t) :
    s.owner ≠ .killed ∧ ServerTaken host capacity s e t := by
  rw [step, Option.ite_none_left_eq_some] at h
  exact ⟨h.1, serverStep_taken h.2⟩

theorem step_heir {e : HeirEvent} (h : s.step host capacity (.heir e) = some t) :
    s.owner ≠ .killed ∧ HeirTaken s e t := by
  rw [step, Option.ite_none_left_eq_some] at h
  exact ⟨h.1, heirStep_taken h.2⟩

theorem inv_step {e : Event} (hI : s.Inv host) (he : e.Short)
    (h : s.step host capacity e = some t) : t.Inv host := by
  cases e with
  | client e =>
      obtain ⟨halive, htaken⟩ := step_client h
      exact ⟨control_client hI.control halive htaken, heard_client hI.control hI.heard he htaken⟩
  | server e =>
      obtain ⟨halive, htaken⟩ := step_server h
      exact ⟨control_server hI.control halive htaken,
        heard_server hI.control hI.heard halive he htaken⟩
  | heir e =>
      obtain ⟨halive, htaken⟩ := step_heir h
      exact ⟨control_heir hI.control halive htaken, heard_heir hI.heard htaken⟩

theorem inv_run {clientSize serverSize : UInt32} {events : List Event}
    (hshort : ∀ e ∈ events, e.Short)
    (hrun : run (step host capacity) (init host clientSize serverSize) events = some s) :
    s.Inv host :=
  run_invariant (P := fun _ e => e.Short) (Inv host) (fun _ _ _ hI he hs => inv_step hI he hs)
    (inv_init host clientSize serverSize) (along_of_forall (fun e he _ => hshort e he) _) hrun

/-! ## What is said arrives -/

/-- `disconnect` comes last, after all that the other process has said. The session of the server
gets it because of the destructor, and not while another process has the end of its input; `inbound`
gets it because the server has aborted; and the destructor does not return before everything has
come to its end. -/
structure Faithful (s : Conversation) : Prop where
  sessionCalls : s.session.calls <+: s.sentByClient.map .message ++ [.disconnect]
  inboundCalls : s.inbound.calls <+: s.sentByServer.map .message ++ [.disconnect]
  sessionDisconnected : .disconnect ∈ s.session.calls →
    s.outbound = false ∧ s.heirs = 0 ∧
      s.session.calls = s.sentByClient.map .message ++ [.disconnect]
  inboundDisconnected : .disconnect ∈ s.inbound.calls →
    s.main = .exited .aborted ∧ s.inbound.calls = s.sentByServer.map .message ++ [.disconnect]
  returned : s.main = .exited .returned → .disconnect ∈ s.session.calls
  exitHandler : s.exitHandler = [] ∨ ∃ how, s.main = .exited how ∧ s.exitHandler = [how.siStatus]
  destroyed : s.owner = .destroyed → s.exitHandler ≠ [] ∧
    s.sentByServer.map .message <+: s.inbound.calls

theorem Inv.faithful (hI : s.Inv host) : s.Faithful := by
  refine ⟨hI.heard.session.calls_prefix, hI.heard.inbound.calls_prefix, ?_, ?_,
    fun h => hI.heard.disconnected (.inr h), ?_, ?_⟩
  · intro hmem
    obtain ⟨hcalls, hstage⟩ := hI.heard.session.calls_of_disconnected hmem
    obtain ⟨hout, hheirs⟩ := hI.control.sessionEnded hstage
    exact ⟨hout, hheirs, hcalls⟩
  · intro hmem
    exact ⟨hI.heard.aborted hmem, (hI.heard.inbound.calls_of_disconnected hmem).1⟩
  · by_cases hthread : s.thread = .ended
    · obtain ⟨how, hmain⟩ :=
        exited_iff.mp (hI.control.inboundEnded (hI.control.threadLeaving (by simp [hthread])))
      refine .inr ⟨how, hmain, ?_⟩
      rw [hI.control.exitHandler how hmain, if_pos hthread]
    · exact .inl (hI.control.notWaited hthread)
  · intro howner
    have hthread := hI.control.destroyed howner
    have hstage := hI.control.threadLeaving (by simp [hthread])
    obtain ⟨how, hmain⟩ := exited_iff.mp (hI.control.inboundEnded hstage)
    refine ⟨?_, hI.heard.inbound.calls_of_ended hstage⟩
    rw [hI.control.exitHandler how hmain, if_pos hthread]
    exact List.cons_ne_nil _ _

end Conversation

/-- In every run in which the lengths of the messages fit into the headers, whatever processes
inherit the end of the pipe to the server. -/
theorem conversation_faithful (host : ByteOrder) (capacity : ℕ) (clientSize serverSize : UInt32)
    {events : List Event} {s : Conversation} (hshort : ∀ e ∈ events, e.Short)
    (hrun : run (Conversation.step host capacity) (.init host clientSize serverSize) events =
      some s) : s.Faithful :=
  (Conversation.inv_run hshort hrun).faithful

/-- A message, its answer, and the destructor, over pipes of three bytes. -/
def oneAnswer : List Event :=
  [.server .sessionCreated, .client (.ownerWrites [7]), .client (.flushes 3), .server (.fills 3),
    .client (.flushes 2), .server (.fills 2), .client .ownerReturns, .server .reads,
    .server .reads, .server (.sessionWrites [9]), .server (.flushes 3), .client (.fills 3),
    .server (.flushes 2), .server .messageReturns, .client (.fills 2), .client .reads,
    .client .reads, .client .messageReturns, .client .destroy, .server .reads, .server .loopEnds,
    .server .mainReturns, .client .reads, .client .loopEnds, .client .waited, .client .joins]

theorem conversation_faithful_one_answer :
    ∃ s, run (Conversation.step .littleEndian 3) (.init .littleEndian 0 0) oneAnswer = some s ∧
      s.owner = .destroyed ∧ s.session.calls = [.message [7], .disconnect] ∧
      s.inbound.calls = [.message [9]] ∧ s.exitHandler = [0] ∧ s.Faithful := by
  have hshort : ∀ e ∈ oneAnswer, e.Short := by
    simp [oneAnswer, Event.Short, ClientEvent.Short, ServerEvent.Short]
  obtain ⟨s, hrun, howner, hsession, hinbound, hexit⟩ : ∃ s,
      run (Conversation.step .littleEndian 3) (.init .littleEndian 0 0) oneAnswer = some s ∧
        s.owner = .destroyed ∧ s.session.calls = [.message [7], .disconnect] ∧
        s.inbound.calls = [.message [9]] ∧ s.exitHandler = [0] :=
    ⟨_, rfl, rfl, by decide, by decide, rfl⟩
  exact ⟨s, hrun, howner, hsession, hinbound, hexit,
    conversation_faithful .littleEndian 3 0 0 hshort hrun⟩

end CohesionIpc.Spawn
