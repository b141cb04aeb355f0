import CohesionIpc.Verification.Spawn.Conversation

/-! What makes a call of a session or of the server it has spawned wait for ever: writes of both
processes into full pipes, and for the destructor a process that has inherited the end of the pipe
to the server. -/

namespace CohesionIpc.Spawn

open Transition

variable {host : ByteOrder} {capacity : ℕ} {s t : Conversation}

/-! ## What is left to do -/

/-- A call that has begun goes on or returns: nothing new is written or thrown, and the destructor
is not called. -/
def ClientEvent.continues : ClientEvent → Bool
  | .ownerReturns | .inboundWritten | .flushes _ | .pipeBreaks | .joins | .fills _ | .reads
  | .messageReturns | .loopEnds | .disconnectReturns | .waited => true
  | .ownerWrites _ | .inboundWrites _ | .destroy | .inboundThrows => false

def ServerEvent.continues : ServerEvent → Bool
  | .sessionCreated | .flushes _ | .fills _ | .reads | .messageReturns | .loopEnds
  | .mainReturns => true
  | .sessionWrites _ | .sessionThrows => false

def Event.continues : Event → Bool
  | .client e => ClientEvent.continues e
  | .server e => ServerEvent.continues e
  | .heir _ => false

/-- What a new message takes at most: three moves a byte, and the return from the call. -/
def Event.cost : Event → ℕ
  | .client (.ownerWrites m) | .client (.inboundWrites m) => 3 * (m.length + 4) + 1
  | .server (.sessionWrites m) => 3 * (m.length + 4)
  | .client _ | .server _ | .heir _ => 0

def Owner.left : Owner → ℕ
  | .inMessage => 2
  | .idle | .joining => 1
  | .destroyed | .killed => 0

def ReaderThread.left : ReaderThread → ℕ
  | .reading => 3
  | .inDisconnect => 2
  | .waiting => 1
  | .ended => 0

def Main.left : Main → ℕ
  | .creating => 3
  | .reading => 2
  | .inDisconnect => 1
  | .exited _ => 0

def loopLeft : LoopStage → ℕ
  | .payload _ => 3
  | .inMessage => 2
  | .header => 1
  | .ended => 0

namespace Conversation

/-- The steps that are left are no more, unless something new is begun. -/
def left (s : Conversation) : ℕ :=
  s.toServer.weight + s.toClient.weight + s.owner.left + s.thread.left + loopLeft s.inbound.stage +
    s.replying.toNat + s.main.left + loopLeft s.session.stage

theorem left_readReturns {p q : Pipe UInt8} {l l' : MessageLoop}
    (h : readReturns host p l = some (q, l')) :
    q.weight + loopLeft l'.stage < p.weight + loopLeft l.stage := by
  obtain ⟨n, bytes, hn, hread, rfl⟩ := readReturns_cases h
  have hweight := Pipe.weight_read hread
  cases hstage : l.stage with
  | header =>
      simp only [MessageLoop.returned, hstage]
      split
      · simp only [loopLeft]
        omega
      · simp only [loopLeft]
        omega
  | payload k =>
      simp only [MessageLoop.returned, hstage, loopLeft]
      omega
  | inMessage => exact absurd hstage (stage_of_requested hn).1
  | ended => exact absurd hstage (stage_of_requested hn).2

theorem length_clientMessage (host : ByteOrder) (m : List UInt8) :
    (ClientSession.message host m).length = m.length + 4 := by
  rw [ClientSession.message, writeMessage, List.length_append, ByteRepresentation.length_bytes,
    Nat.add_comm]

theorem length_serverMessage (host : ByteOrder) (m : List UInt8) :
    (PipeChannel.message host m).length = m.length + 4 :=
  length_clientMessage host m

theorem left_client {e : ClientEvent} (hC : s.Control) (halive : s.owner ≠ .killed)
    (h : ClientTaken host capacity s e t) :
    (if e.continues then 1 else 0) + t.left ≤ s.left + (Event.client e).cost := by
  cases h with
  | ownerWrites m howner =>
      simp only [ClientEvent.continues, Event.cost, left, Pipe.weight_put, length_clientMessage,
        howner, Owner.left, Bool.false_eq_true, if_false]
      omega
  | inboundWrites m hin hreplying howner =>
      simp only [ClientEvent.continues, Event.cost, left, Pipe.weight_put, length_clientMessage,
        hreplying, Bool.toNat_true, Bool.toNat_false, Bool.false_eq_true, if_false]
      omega
  | dies _ he =>
      have hcontinues : e.continues = false := by
        rcases he with rfl | ⟨m, rfl⟩ <;> rfl
      simp only [hcontinues, left, Owner.left, Bool.false_eq_true, if_false]
      omega
  | pipeBreaks hwriting =>
      have howner : 0 < s.owner.left := by
        rcases hC.writing halive hwriting with h | h
        · rw [h]
          decide
        · rw [(hC.replying halive h).1]
          decide
      have hkilled : Owner.killed.left = 0 := rfl
      simp only [ClientEvent.continues, Event.cost, left, hkilled, if_true]
      omega
  | ownerReturns howner | destroy howner | joins howner =>
      simp only [ClientEvent.continues, Event.cost, left, howner, Owner.left, Pipe.weight_release,
        Bool.false_eq_true, if_true, if_false]
      omega
  | inboundWritten hreplying =>
      simp only [ClientEvent.continues, Event.cost, left, hreplying, Bool.toNat_true,
        Bool.toNat_false, if_true]
      omega
  | flushes n hexited hp =>
      have hweight := (Pipe.flush_cases hp).2.2.1
      simp only [ClientEvent.continues, Event.cost, left, if_true]
      omega
  | fills n hwanted hp =>
      have hweight := (Pipe.fill_cases hp).2.2.1
      simp only [ClientEvent.continues, Event.cost, left, if_true]
      omega
  | reads hr =>
      have hweight := left_readReturns hr
      simp only [ClientEvent.continues, Event.cost, left, if_true]
      omega
  | messageReturns hstage =>
      simp only [ClientEvent.continues, Event.cost, left, hstage, MessageLoop.messageReturned,
        loopLeft, if_true]
      omega
  | disconnects hthread | staysSilent hthread | disconnectReturns hthread | waited hthread =>
      simp only [ClientEvent.continues, Event.cost, left, hthread, ReaderThread.left,
        MessageLoop.disconnect, if_true]
      omega

theorem left_server {e : ServerEvent} (h : ServerTaken host capacity s e t) :
    (if e.continues then 1 else 0) + t.left ≤ s.left + (Event.server e).cost := by
  cases h with
  | sessionWrites m =>
      simp only [ServerEvent.continues, Event.cost, left, Pipe.weight_put, length_serverMessage,
        Bool.false_eq_true, if_false]
      omega
  | sessionThrows =>
      simp only [ServerEvent.continues, left, Conversation.exit, Main.left, Pipe.weight_close,
        Bool.false_eq_true, if_false]
      omega
  | sessionCreated hmain | mainReturns hmain | loopEnds hmain =>
      simp only [ServerEvent.continues, Event.cost, left, hmain, Conversation.exit, Main.left,
        Pipe.weight_close, MessageLoop.disconnect, if_true]
      omega
  | flushes n hp =>
      have hweight := (Pipe.flush_cases hp).2.2.1
      simp only [ServerEvent.continues, Event.cost, left, if_true]
      omega
  | fills n hmain hwanted hp =>
      have hweight := (Pipe.fill_cases hp).2.2.1
      simp only [ServerEvent.continues, Event.cost, left, if_true]
      omega
  | reads hmain hr =>
      have hweight := left_readReturns hr
      simp only [ServerEvent.continues, Event.cost, left, if_true]
      omega
  | messageReturns hmain hstage =>
      simp only [ServerEvent.continues, Event.cost, left, hstage, MessageLoop.messageReturned,
        loopLeft, if_true]
      omega

theorem left_heir {e : HeirEvent} (h : HeirTaken s e t) : t.left = s.left := by
  cases h with
  | started | ended => rfl

/-- Whatever goes on is paid for by what was left, or by what is newly begun. -/
theorem left_step {e : Event} (hI : s.Inv host) (h : s.step host capacity e = some t) :
    (if e.continues then 1 else 0) + t.left ≤ s.left + e.cost := by
  cases e with
  | client e =>
      obtain ⟨halive, htaken⟩ := step_client h
      exact left_client hI.control halive htaken
  | server e => exact left_server (step_server h).2
  | heir e =>
      rw [left_heir (step_heir h).2, Event.continues, if_neg Bool.false_ne_true, Nat.zero_add]
      exact Nat.le_add_right _ _

/-! ## Waiting -/

/-- No call that has begun can go on. -/
def Stuck (host : ByteOrder) (capacity : ℕ) (s : Conversation) : Prop :=
  ∀ e : Event, e.continues = true → s.step host capacity e = none

/-- What has been said has been heard, and each process waits for more. -/
structure Quiet (s : Conversation) : Prop where
  replying : s.replying = false
  thread : s.thread = .reading
  main : s.main = .reading
  inboundStage : s.inbound.stage = .header
  sessionStage : s.session.stage = .header
  toServer : s.toServer = .empty
  toClient : s.toClient = .empty
  sessionCalls : s.session.calls = s.sentByClient.map .message
  inboundCalls : s.inbound.calls = s.sentByServer.map .message

/-- The session is not destroyed yet. -/
structure AtRest (s : Conversation) : Prop extends Quiet s where
  owner : s.owner = .idle

/-- The destructor waits for the end of a server that gets no end of its input, since another
process has the write end. -/
structure HeldOpen (s : Conversation) : Prop extends Quiet s where
  owner : s.owner = .joining
  heirs : 0 < s.heirs

/-- The server has aborted, `inbound` has been told, and the session is not yet destroyed. -/
structure ServerGone (s : Conversation) : Prop where
  owner : s.owner = .idle
  thread : s.thread = .ended
  main : s.main = .exited .aborted
  inboundCalls : s.inbound.calls = s.sentByServer.map .message ++ [.disconnect]

/-- Each process is inside a write to a full pipe, which the other one does not read: the client
from within a call of `inbound`, the server from within one of its session. -/
structure Deadlocked (capacity : ℕ) (s : Conversation) : Prop where
  owner : s.owner = .idle
  replying : s.replying = true
  inboundStage : s.inbound.stage = .inMessage
  inSession : s.main = .creating ∨ s.main = .reading ∧ s.session.stage = .inMessage
  toServer : s.toServer.unflushed ≠ [] ∧ capacity ≤ s.toServer.content.length
  toClient : s.toClient.unflushed ≠ [] ∧ capacity ≤ s.toClient.content.length

theorem Stuck.client (h : s.Stuck host capacity) (halive : s.owner ≠ .killed) {e : ClientEvent}
    (he : e.continues = true) : s.clientStep host capacity e = none := by
  have hnone := h (.client e) he
  rwa [step, if_neg halive] at hnone

theorem Stuck.server (h : s.Stuck host capacity) (halive : s.owner ≠ .killed) {e : ServerEvent}
    (he : e.continues = true) : s.serverStep host capacity e = none := by
  have hnone := h (.server e) he
  rwa [step, if_neg halive] at hnone

theorem Stuck.clientWaits (h : s.Stuck host capacity) (halive : s.owner ≠ .killed) {n : ℕ}
    (hn : s.inbound.stage.requested = some n) :
    s.toClient.ahead.length < n ∧ s.toClient.content = [] ∧ s.toClient.writable = true := by
  rw [← Pipe.waits_iff]
  refine ⟨?_, ?_⟩
  · intro k
    have hfills := h.client halive (e := .fills k) rfl
    simpa [clientStep, hn] using hfills
  · have hreads := h.client halive (e := .reads) rfl
    simpa [clientStep, readReturns, hn] using hreads

theorem Stuck.serverWaits (h : s.Stuck host capacity) (halive : s.owner ≠ .killed) {n : ℕ}
    (hmain : s.main = .reading) (hn : s.session.stage.requested = some n) :
    s.toServer.ahead.length < n ∧ s.toServer.content = [] ∧ s.toServer.writable = true := by
  rw [← Pipe.waits_iff]
  refine ⟨?_, ?_⟩
  · intro k
    have hfills := h.server halive (e := .fills k) rfl
    simpa [serverStep, hmain, hn] using hfills
  · have hreads := h.server halive (e := .reads) rfl
    simpa [serverStep, readReturns, hmain, hn] using hreads

theorem Stuck.clientFlushed (h : s.Stuck host capacity) (halive : s.owner ≠ .killed)
    (hexited : s.exited = false) :
    s.toServer.unflushed = [] ∨ capacity ≤ s.toServer.content.length := by
  rw [← Pipe.flush_eq_none_iff]
  intro n
  have hflushes := h.client halive (e := .flushes n) rfl
  simpa [clientStep, hexited] using hflushes

theorem Stuck.serverFlushed (h : s.Stuck host capacity) (halive : s.owner ≠ .killed) :
    s.toClient.unflushed = [] ∨ capacity ≤ s.toClient.content.length := by
  rw [← Pipe.flush_eq_none_iff]
  intro n
  have hflushes := h.server halive (e := .flushes n) rfl
  simpa [serverStep] using hflushes

/-- A write of the client that waits waits for a server that is there. -/
theorem Stuck.writing (h : s.Stuck host capacity) (halive : s.owner ≠ .killed)
    (hwriting : s.toServer.unflushed ≠ []) :
    s.exited = false ∧ capacity ≤ s.toServer.content.length := by
  have hexited : s.exited = false := by
    have hbreaks := h.client halive (e := .pipeBreaks) rfl
    simpa [clientStep, hwriting] using hbreaks
  exact ⟨hexited, (h.clientFlushed halive hexited).resolve_left hwriting⟩

/-- A call of the session that does not return is inside a write. -/
theorem Stuck.inSession (h : s.Stuck host capacity) (halive : s.owner ≠ .killed)
    (hin : s.inSession = true) :
    s.toClient.unflushed ≠ [] ∧ capacity ≤ s.toClient.content.length := by
  have hwriting : s.toClient.unflushed ≠ [] := by
    intro hflushed
    rcases inSession_iff.mp hin with hmain | ⟨hmain, hstage⟩ | hmain
    · have hcreated := h.server halive (e := .sessionCreated) rfl
      simp [serverStep, hmain, hflushed] at hcreated
    · have hreturns := h.server halive (e := .messageReturns) rfl
      simp [serverStep, hmain, hstage, hflushed] at hreturns
    · have hreturns := h.server halive (e := .mainReturns) rfl
      simp [serverStep, hmain, hflushed] at hreturns
  exact ⟨hwriting, (h.serverFlushed halive).resolve_left hwriting⟩

theorem Stuck.ownerWriting (h : s.Stuck host capacity) (halive : s.owner ≠ .killed)
    (howner : s.owner = .inMessage) : s.toServer.unflushed ≠ [] := by
  intro hflushed
  have hreturns := h.client halive (e := .ownerReturns) rfl
  simp [clientStep, howner, hflushed] at hreturns

theorem Stuck.replying (h : s.Stuck host capacity) (halive : s.owner ≠ .killed)
    (hreplying : s.replying = true) : s.toServer.unflushed ≠ [] := by
  intro hflushed
  have hwritten := h.client halive (e := .inboundWritten) rfl
  simp [clientStep, hreplying, hflushed] at hwritten

/-- Both loops wait for a frame. -/
theorem Stuck.quiet (h : s.Stuck host capacity) (halive : s.owner ≠ .killed)
    (hcapacity : 0 < capacity) (hI : s.Inv host) (hthread : s.thread = .reading) {n : ℕ}
    (hn : s.inbound.stage.requested = some n) : s.AtRest ∨ s.HeldOpen := by
  obtain ⟨hahead, hcontent, hwritable⟩ := h.clientWaits halive hn
  have hroom : s.toClient.unflushed = [] := by
    apply (h.serverFlushed halive).resolve_right
    rw [hcontent]
    exact Nat.not_le.mpr hcapacity
  have hlink : s.toClient.link.arrived ++ s.toClient.link.inFlight = s.toClient.ahead := by
    rw [Pipe.link, hcontent, hroom, List.append_nil, List.append_nil]
  obtain ⟨hstage, hnil, hcalls⟩ :=
    (hI.heard.inboundReads hthread).of_less hn (by rwa [hlink])
  have hexited : s.exited = false := by
    have hw := hI.control.answerable
    rw [hwritable] at hw
    simpa using hw.symm
  have hsilent : s.inSession = false := by
    rw [Bool.eq_false_iff]
    intro hin
    exact (h.inSession halive hin).1 hroom
  have hmain : s.main = .reading := by
    cases hmain : s.main with
    | reading => rfl
    | creating | inDisconnect => simp [Conversation.inSession, hmain] at hsilent
    | exited how => simp [exited, hmain] at hexited
  obtain ⟨k, hk⟩ : ∃ k, s.session.stage.requested = some k := by
    cases hs : s.session.stage with
    | header => exact ⟨4, rfl⟩
    | payload k => exact ⟨k, rfl⟩
    | inMessage => simp [Conversation.inSession, hmain, hs] at hsilent
    | ended =>
        have hends := h.server halive (e := .loopEnds) rfl
        simp [serverStep, hmain, hs] at hends
  obtain ⟨hahead', hcontent', hwritable'⟩ := h.serverWaits halive hmain hk
  have hwritten : s.toServer.unflushed = [] := by
    apply (h.clientFlushed halive hexited).resolve_right
    rw [hcontent']
    exact Nat.not_le.mpr hcapacity
  have hlink' : s.toServer.link.arrived ++ s.toServer.link.inFlight = s.toServer.ahead := by
    rw [Pipe.link, hcontent', hwritten, List.append_nil, List.append_nil]
  obtain ⟨hstage', hnil', hcalls'⟩ :=
    (hI.heard.sessionReads (.inr hmain)).of_less hk (by rwa [hlink'])
  have hquiet : s.Quiet := by
    refine ⟨?_, hthread, hmain, hstage, hstage', ?_, ?_, hcalls', hcalls⟩
    · rw [Bool.eq_false_iff]
      exact fun hreplying => h.replying halive hreplying hwritten
    · rw [hlink'] at hnil'
      rw [Pipe.empty, ← hwritten]
      cases hp : s.toServer with
      | mk unflushed content ahead writable => simp_all
    · rw [hlink] at hnil
      cases hp : s.toClient with
      | mk unflushed content ahead writable => simp_all [Pipe.empty]
  have hheld := (hI.control.writable halive).mp hwritable'
  cases howner : s.owner with
  | idle => exact .inl ⟨hquiet, howner⟩
  | inMessage => exact absurd hwritten (h.ownerWriting halive howner)
  | joining =>
      refine .inr ⟨hquiet, howner, hheld.resolve_left ?_⟩
      simp [outbound, howner]
  | destroyed =>
      have hended := hI.control.destroyed howner
      rw [hthread] at hended
      cases hended
  | killed => exact absurd howner halive

/-- The only call that never returns is one whose write waits for the other process, which waits
in a write of its own. -/
theorem Stuck.deadlocked (h : s.Stuck host capacity) (halive : s.owner ≠ .killed)
    (hcapacity : 0 < capacity) (hI : s.Inv host) (hreplying : s.replying = true) :
    s.Deadlocked capacity := by
  obtain ⟨howner, hin⟩ := hI.control.replying halive hreplying
  have hwriting := h.replying halive hreplying
  obtain ⟨hexited, hfull⟩ := h.writing halive hwriting
  have hstage : s.inbound.stage = .inMessage := by
    apply (inInbound_iff.mp hin).resolve_right
    intro hthread
    have hended := hI.control.inboundEnded (hI.control.threadLeaving (by simp [hthread]))
    rw [hexited] at hended
    cases hended
  have hsession : s.main = .creating ∨ s.main = .reading ∧ s.session.stage = .inMessage := by
    cases hmain : s.main with
    | creating => exact .inl rfl
    | reading =>
        refine .inr ⟨rfl, ?_⟩
        cases hs : s.session.stage with
        | inMessage => rfl
        | header | payload =>
            obtain ⟨-, hnil, -⟩ := h.serverWaits halive hmain (by rw [hs]; rfl)
            rw [hnil] at hfull
            exact absurd hfull (Nat.not_le.mpr hcapacity)
        | ended =>
            have hends := h.server halive (e := .loopEnds) rfl
            simp [serverStep, hmain, hs] at hends
    | inDisconnect =>
        have hgoesOn := hI.control.sessionGoesOn (outbound_iff.mpr (.inl howner))
        exact absurd (hI.control.leaving (.inl hmain)) hgoesOn
    | exited how => simp [exited, hmain] at hexited
  have hanswering : s.inSession = true := by
    rw [inSession_iff]
    rcases hsession with hmain | hmain
    · exact .inl hmain
    · exact .inr (.inl hmain)
  exact ⟨howner, hreplying, hstage, hsession, ⟨hwriting, hfull⟩, h.inSession halive hanswering⟩

theorem Stuck.ended (h : s.Stuck host capacity) (halive : s.owner ≠ .killed) (hI : s.Inv host)
    (hthread : s.thread = .ended) : s.owner = .destroyed ∨ s.ServerGone := by
  have hstage := hI.control.threadLeaving (by simp [hthread])
  obtain ⟨how, hmain⟩ := exited_iff.mp (hI.control.inboundEnded hstage)
  cases howner : s.owner with
  | killed => exact absurd howner halive
  | destroyed => exact .inl rfl
  | joining =>
      have hjoins := h.client halive (e := .joins) rfl
      simp [clientStep, howner, hthread] at hjoins
  | inMessage =>
      have hexited := (h.writing halive (h.ownerWriting halive howner)).1
      simp [exited, hmain] at hexited
  | idle =>
      have hmem := hI.heard.told (by simp [hthread]) (outbound_iff.mpr (.inl howner))
      exact .inr ⟨howner, hthread, hI.heard.aborted hmem,
        (hI.heard.inbound.calls_of_disconnected hmem).1⟩

/-- Where nothing goes on. -/
theorem Stuck.cases (h : s.Stuck host capacity) (hcapacity : 0 < capacity) (hI : s.Inv host) :
    s.owner = .killed ∨ s.owner = .destroyed ∨ s.AtRest ∨ s.ServerGone ∨ s.Deadlocked capacity ∨
      s.HeldOpen := by
  by_cases hkilled : s.owner = .killed
  · exact .inl hkilled
  · cases hthread : s.thread with
    | reading =>
        cases hstage : s.inbound.stage with
        | header | payload =>
            rcases h.quiet hkilled hcapacity hI hthread (by rw [hstage]; rfl) with h | h
            · exact .inr (.inr (.inl h))
            · exact .inr (.inr (.inr (.inr (.inr h))))
        | inMessage =>
            have hreplying : s.replying = true := by
              have hreturns := h.client hkilled (e := .messageReturns) rfl
              simpa [clientStep, hstage] using hreturns
            exact .inr (.inr (.inr (.inr (.inl (h.deadlocked hkilled hcapacity hI hreplying)))))
        | ended =>
            have hends := h.client hkilled (e := .loopEnds) rfl
            cases hout : s.outbound <;> simp [clientStep, hthread, hstage, hout] at hends
    | inDisconnect =>
        have hreplying : s.replying = true := by
          have hreturns := h.client hkilled (e := .disconnectReturns) rfl
          simpa [clientStep, hthread] using hreturns
        exact .inr (.inr (.inr (.inr (.inl (h.deadlocked hkilled hcapacity hI hreplying)))))
    | waiting =>
        have hended := hI.control.inboundEnded (hI.control.threadLeaving (by simp [hthread]))
        obtain ⟨how, hmain⟩ := exited_iff.mp hended
        have hwaited := h.client hkilled (e := .waited) rfl
        simp [clientStep, hthread, hmain] at hwaited
    | ended =>
        rcases h.ended hkilled hI hthread with h | h
        · exact .inr (.inl h)
        · exact .inr (.inr (.inr (.inl h)))

theorem stuck_of_steps (hclient : ∀ e : ClientEvent, e.continues = true →
    s.clientStep host capacity e = none) (hserver : ∀ e : ServerEvent, e.continues = true →
    s.serverStep host capacity e = none) : s.Stuck host capacity := by
  intro e he
  cases e with
  | client e => rw [step, hclient e he, ite_self]
  | server e => rw [step, hserver e he, ite_self]
  | heir e => cases he

theorem stuck_of_killed (h : s.owner = .killed) : s.Stuck host capacity := by
  intro e _
  cases e <;> rw [step, if_pos h]

theorem Quiet.stuck (h : s.Quiet) (howner : s.owner = .idle ∨ s.owner = .joining) :
    s.Stuck host capacity := by
  have hnotIn : s.owner ≠ .inMessage := by
    rcases howner with howner | howner <;> simp [howner]
  have hfill : ∀ n, (Pipe.empty : Pipe UInt8).fill 4 n = none :=
    (Pipe.waits_iff.mpr ⟨by decide, rfl, rfl⟩).1
  have hread : (Pipe.empty : Pipe UInt8).read 4 = none := rfl
  have hflush : ∀ n, (Pipe.empty : Pipe UInt8).flush capacity n = none :=
    Pipe.flush_eq_none_iff.mpr (.inl rfl)
  apply stuck_of_steps
  · intro e he
    cases e with
    | ownerWrites | inboundWrites | destroy | inboundThrows => cases he
    | flushes n => simp [clientStep, h.toServer, hflush]
    | fills n => simp [clientStep, h.inboundStage, h.toClient, LoopStage.requested, hfill]
    | reads =>
        simp [clientStep, readReturns, h.inboundStage, h.toClient, LoopStage.requested, hread]
    | _ => simp [clientStep, exited, hnotIn, h.replying, h.thread, h.main, h.inboundStage,
        h.toServer, Pipe.empty]
  · intro e he
    cases e with
    | sessionWrites | sessionThrows => cases he
    | flushes n => simp [serverStep, h.toClient, hflush]
    | fills n => simp [serverStep, h.sessionStage, h.toServer, LoopStage.requested, hfill]
    | reads =>
        simp [serverStep, readReturns, h.sessionStage, h.toServer, LoopStage.requested, hread]
    | _ => simp [serverStep, h.main, h.sessionStage]

/-- Without the thread and the server there is only the owner, who is not inside a call. -/
theorem Control.stuck (h : s.Control) (howner : s.owner = .idle ∨ s.owner = .destroyed)
    (hthread : s.thread = .ended) : s.Stuck host capacity := by
  have hstage := h.threadLeaving (by simp [hthread])
  obtain ⟨how, hmain⟩ := exited_iff.mp (h.inboundEnded hstage)
  have halive : s.owner ≠ .killed := by
    rcases howner with howner | howner <;> simp [howner]
  have hreplying : s.replying = false := by
    rw [Bool.eq_false_iff]
    intro hreplying
    have hin := (h.replying halive hreplying).2
    simp [inInbound, hstage, hthread] at hin
  have hwritten : s.toServer.unflushed = [] := by
    by_contra hne
    have hwriting := h.writing halive hne
    rcases howner with howner | howner <;> simp [howner, hreplying] at hwriting
  have hanswered : s.toClient.unflushed = [] := by
    by_contra hne
    have hin := h.answering hne
    simp [inSession, hmain] at hin
  have hjoins : s.owner ≠ .joining ∧ s.owner ≠ .inMessage := by
    rcases howner with howner | howner <;> simp [howner]
  have hflush : ∀ n, s.toClient.flush capacity n = none :=
    Pipe.flush_eq_none_iff.mpr (.inl hanswered)
  apply stuck_of_steps
  · intro e he
    cases e with
    | ownerWrites | inboundWrites | destroy | inboundThrows => cases he
    | fills n => simp [clientStep, hstage, LoopStage.requested]
    | reads => simp [clientStep, readReturns, hstage, LoopStage.requested]
    | _ => simp [clientStep, exited, hreplying, hthread, hmain, hstage, hwritten, hjoins]
  · intro e he
    cases e with
    | sessionWrites | sessionThrows => cases he
    | flushes n => simp [serverStep, hflush]
    | _ => simp [serverStep, hmain]

theorem Deadlocked.stuck (h : s.Deadlocked capacity) : s.Stuck host capacity := by
  have hclient : ∀ n, s.toServer.flush capacity n = none :=
    Pipe.flush_eq_none_iff.mpr (.inr h.toServer.2)
  have hserver : ∀ n, s.toClient.flush capacity n = none :=
    Pipe.flush_eq_none_iff.mpr (.inr h.toClient.2)
  have hexited : s.exited = false := by
    rcases h.inSession with hmain | ⟨hmain, -⟩ <;> rw [exited, hmain]
  apply stuck_of_steps
  · intro e he
    cases e with
    | ownerWrites | inboundWrites | destroy | inboundThrows => cases he
    | flushes n => simp [clientStep, hclient]
    | fills n => simp [clientStep, h.inboundStage, LoopStage.requested]
    | reads => simp [clientStep, readReturns, h.inboundStage, LoopStage.requested]
    | waited =>
        rcases h.inSession with hmain | ⟨hmain, -⟩ <;> simp [clientStep, hmain]
    | _ => simp [clientStep, h.owner, h.replying, h.inboundStage, h.toServer.1, hexited]
  · intro e he
    rcases h.inSession with hmain | ⟨hmain, hstage⟩
    · cases e with
      | sessionWrites | sessionThrows => cases he
      | flushes n => simp [serverStep, hserver]
      | _ => simp [serverStep, hmain, h.toClient.1]
    · cases e with
      | sessionWrites | sessionThrows => cases he
      | flushes n => simp [serverStep, hserver]
      | fills n => simp [serverStep, hstage, LoopStage.requested]
      | reads => simp [serverStep, readReturns, hstage, LoopStage.requested]
      | _ => simp [serverStep, hmain, hstage, h.toClient.1]

theorem stuck_iff (hcapacity : 0 < capacity) (hI : s.Inv host) :
    s.Stuck host capacity ↔
      s.owner = .killed ∨ s.owner = .destroyed ∨ s.AtRest ∨ s.ServerGone ∨
        s.Deadlocked capacity ∨ s.HeldOpen := by
  refine ⟨fun h => h.cases hcapacity hI, ?_⟩
  rintro (h | h | h | h | h | h)
  · exact stuck_of_killed h
  · exact hI.control.stuck (.inr h) (hI.control.destroyed h)
  · exact h.stuck (.inl h.owner)
  · exact hI.control.stuck (.inl h.owner) h.thread
  · exact h.stuck
  · exact h.stuck (.inr h.owner)

/-! ## The destructor -/

end Conversation

/-- Neither of the two processes begins anything new. -/
def Event.quiet : Event → Bool
  | .client e => ClientEvent.continues e
  | .server e => ServerEvent.continues e
  | .heir _ => true

namespace Conversation

theorem short_of_quiet {e : Event} (he : e.quiet = true) : e.Short := by
  cases e with
  | client e =>
      cases e with
      | ownerWrites | inboundWrites => cases he
      | _ => trivial
  | server e =>
      cases e with
      | sessionWrites => cases he
      | _ => trivial
  | heir e => trivial

theorem cost_of_quiet {e : Event} (he : e.quiet = true) : e.cost = 0 := by
  cases e with
  | client e =>
      cases e with
      | ownerWrites | inboundWrites => cases he
      | _ => rfl
  | server e =>
      cases e with
      | sessionWrites => cases he
      | _ => rfl
  | heir e => rfl

/-- The destructor has been called, and the process is still there. -/
def destroying (s : Conversation) : Prop := s.owner = .joining ∨ s.owner = .destroyed

theorem destroying_step {e : Event} (hI : s.Inv host) (hs : s.destroying) (he : e.quiet = true)
    (h : s.step host capacity e = some t) : t.destroying := by
  cases e with
  | server e => cases (step_server h).2 <;> exact hs
  | heir e => cases (step_heir h).2 <;> exact hs
  | client e =>
      obtain ⟨halive, htaken⟩ := step_client h
      cases htaken with
      | ownerWrites | destroy | inboundWrites => cases he
      | ownerReturns howner => simp [destroying, howner] at hs
      | joins => exact .inr rfl
      | dies _ hdies =>
          rcases hdies with rfl | ⟨m, rfl⟩ <;> cases he
      | pipeBreaks hwriting =>
          rcases hI.control.writing halive hwriting with howner | hreplying
          · simp [destroying, howner] at hs
          · simp [destroying, (hI.control.replying halive hreplying).1] at hs
      | _ => exact hs

theorem destroying_run {more : List Event} (hI : s.Inv host) (hs : s.destroying)
    (hmore : ∀ e ∈ more, e.quiet = true) (hrun : run (step host capacity) s more = some t) :
    t.Inv host ∧ t.destroying :=
  run_invariant (P := fun _ e => e.quiet = true) (fun s => s.Inv host ∧ s.destroying)
    (fun _ _ _ h he hs => ⟨inv_step h.1 (short_of_quiet he) hs, destroying_step h.1 h.2 he hs⟩)
    ⟨hI, hs⟩ (along_of_forall (fun e he _ => hmore e he) _) hrun

theorem countP_le_left {more : List Event} (hI : s.Inv host)
    (hmore : ∀ e ∈ more, e.quiet = true) (hrun : run (step host capacity) s more = some t) :
    more.countP Event.continues ≤ s.left := by
  have hstep : ∀ (s : Conversation) (e : Event) s', s.Inv host → e.quiet = true →
      s.step host capacity e = some s' →
      s'.Inv host ∧ (if e.continues then 1 else 0) + s'.left ≤ s.left := by
    intro s e s' hI he hs
    refine ⟨inv_step hI (short_of_quiet he) hs, ?_⟩
    have hleft := left_step hI hs
    rwa [cost_of_quiet he, Nat.add_zero] at hleft
  have hcount := countP_add_le_of_measure (P := fun _ e => e.quiet = true) (Inv host) left
    hstep hI (along_of_forall (fun e he _ => hmore e he) _) hrun
  omega

theorem stuck_iff_of_destroying (hcapacity : 0 < capacity) (hI : s.Inv host)
    (hs : s.destroying) : s.Stuck host capacity ↔ s.owner = .destroyed ∨ s.HeldOpen := by
  rw [stuck_iff hcapacity hI]
  constructor
  · rintro (h | h | h | h | h | h)
    · simp [destroying, h] at hs
    · exact .inl h
    · simp [destroying, h.owner] at hs
    · simp [destroying, h.owner] at hs
    · simp [destroying, h.owner] at hs
    · exact .inr h
  · rintro (h | h)
    · exact .inr (.inl h)
    · exact .inr (.inr (.inr (.inr (.inr h))))

end Conversation

/-- The calls under way take no more steps than the messages pay for, and they all return, unless
the two processes wait for each other in writes to full pipes, or the destructor for a server whose
input another process holds open. -/
theorem conversation_proceeds (host : ByteOrder) {capacity : ℕ} (hcapacity : 0 < capacity)
    (clientSize serverSize : UInt32) {events : List Event} {s : Conversation}
    (hshort : ∀ e ∈ events, e.Short)
    (hrun : run (Conversation.step host capacity) (.init host clientSize serverSize) events =
      some s) :
    events.countP Event.continues ≤ 9 + (events.map Event.cost).sum ∧
      (s.Stuck host capacity ↔
        s.owner = .killed ∨ s.owner = .destroyed ∨ s.AtRest ∨ s.ServerGone ∨
          s.Deadlocked capacity ∨ s.HeldOpen) := by
  refine ⟨?_, Conversation.stuck_iff hcapacity (Conversation.inv_run hshort hrun)⟩
  have hcount : events.countP Event.continues + s.left ≤
      (Conversation.init host clientSize serverSize).left + (events.map Event.cost).sum :=
    countP_add_le_of_cost (P := fun _ e => e.Short) Event.cost (Conversation.Inv host)
      Conversation.left
      (fun _ _ _ hI he hs => ⟨Conversation.inv_step hI he hs, Conversation.left_step hI hs⟩)
      (Conversation.inv_init host clientSize serverSize)
      (along_of_forall (fun e he _ => hshort e he) _) hrun
  have hinit : (Conversation.init host clientSize serverSize).left = 9 := rfl
  omega

/-- `inbound` answers, while the server writes without reading. -/
def bothWrite : List Event :=
  [.server (.sessionWrites []), .server (.flushes 3), .client (.fills 3), .server (.flushes 1),
    .client (.fills 1), .client .reads, .client .reads, .server (.sessionWrites []),
    .server (.flushes 3), .client (.inboundWrites []), .client (.flushes 3)]

theorem conversation_proceeds_both_write :
    ∃ s, run (Conversation.step .littleEndian 3) (.init .littleEndian 0 0) bothWrite = some s ∧
      bothWrite.countP Event.continues ≤ 9 + (bothWrite.map Event.cost).sum ∧
      s.Stuck .littleEndian 3 := by
  have hshort : ∀ e ∈ bothWrite, e.Short := by
    simp [bothWrite, Event.Short, ClientEvent.Short, ServerEvent.Short]
  obtain ⟨s, hrun, hdeadlocked⟩ : ∃ s,
      run (Conversation.step .littleEndian 3) (.init .littleEndian 0 0) bothWrite = some s ∧
        s.Deadlocked 3 :=
    ⟨_, rfl, rfl, rfl, by decide, by decide, by decide, by decide⟩
  obtain ⟨hcount, hstuck⟩ :=
    conversation_proceeds .littleEndian (by decide : 0 < 3) 0 0 hshort hrun
  exact ⟨s, hrun, hcount, hstuck.mpr (.inr (.inr (.inr (.inr (.inl hdeadlocked)))))⟩

/-- Once the destructor is called, the calls under way take it to its end, in whatever order they
go on, as long as neither process begins anything new; but not while another process has the end of
the pipe to the server. -/
theorem destructor_returns (host : ByteOrder) {capacity : ℕ} (hcapacity : 0 < capacity)
    (clientSize serverSize : UInt32) {events more : List Event} {s t : Conversation}
    (hshort : ∀ e ∈ events, e.Short)
    (hrun : run (Conversation.step host capacity) (.init host clientSize serverSize) events =
      some s)
    (howner : s.owner = .joining) (hmore : ∀ e ∈ more, e.quiet = true)
    (hrest : run (Conversation.step host capacity) s more = some t) :
    more.countP Event.continues ≤ s.left ∧ (t.owner = .joining ∨ t.owner = .destroyed) ∧
      (t.Stuck host capacity ↔ t.owner = .destroyed ∨ t.HeldOpen) := by
  have hI := Conversation.inv_run hshort hrun
  obtain ⟨hI', ht⟩ := Conversation.destroying_run hI (.inl howner) hmore hrest
  exact ⟨Conversation.countP_le_left hI hmore hrest, ht,
    Conversation.stuck_iff_of_destroying hcapacity hI' ht⟩

theorem destructor_returns_one_answer :
    ∃ s t, run (Conversation.step .littleEndian 3) (.init .littleEndian 0 0)
        (oneAnswer.take 19) = some s ∧ s.owner = .joining ∧
      run (Conversation.step .littleEndian 3) s (oneAnswer.drop 19) = some t ∧
      (oneAnswer.drop 19).countP Event.continues ≤ s.left ∧
      (t.Stuck .littleEndian 3 ↔ t.owner = .destroyed ∨ t.HeldOpen) := by
  have hshort : ∀ e ∈ oneAnswer.take 19, e.Short := by
    simp [oneAnswer, Event.Short, ClientEvent.Short, ServerEvent.Short]
  obtain ⟨s, t, hrun, howner, hrest⟩ : ∃ s t,
      run (Conversation.step .littleEndian 3) (.init .littleEndian 0 0) (oneAnswer.take 19) =
        some s ∧ s.owner = .joining ∧
      run (Conversation.step .littleEndian 3) s (oneAnswer.drop 19) = some t :=
    ⟨_, _, rfl, rfl, rfl⟩
  obtain ⟨hcount, -, hstuck⟩ := destructor_returns .littleEndian (by decide : 0 < 3) 0 0 hshort
    hrun howner (by decide) hrest
  exact ⟨s, t, hrun, howner, hrest, hcount, hstuck⟩

-- the server waits for the end of its input until the other process has ended
example : ∃ s t, run (Conversation.step .littleEndian 3) (.init .littleEndian 0 0)
      [.server .sessionCreated, .heir .started, .client .destroy] = some s ∧
    s.owner = .joining ∧ s.step .littleEndian 3 (.server .reads) = none ∧
    run (Conversation.step .littleEndian 3) s
      [.heir .ended, .server .reads, .server .loopEnds, .server .mainReturns, .client .reads,
        .client .loopEnds, .client .waited, .client .joins] = some t ∧ t.owner = .destroyed :=
  ⟨_, _, rfl, rfl, rfl, rfl, rfl⟩

end CohesionIpc.Spawn
