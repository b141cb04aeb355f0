import CohesionIpc.Foundation.Transition
import CohesionIpc.Model.Sockets.ClientSession
import CohesionIpc.Verification.Transport.Loop
import CohesionIpc.Verification.Transport.RoundTrip

/-! The life cycle of a session of a sockets client, for every moment at which it is destroyed or
the server closes the connection, and every interleaving of its thread with the destructor. -/

namespace CohesionIpc.Sockets

open Transition

variable {host peer : ByteOrder} {emptyRecvWaits : Bool} {fd : ℕ} {s t : ClientSession}
  {e : SessionEvent}

/-- The lengths of the messages fit into the headers, and the number of the session's socket is
given to nobody else. -/
def SessionEvent.Fair (fd : ℕ) : SessionEvent → Prop
  | .serverSends m => m.length < 2 ^ 32
  | .givenOut n => n ≠ fd ∧ n ≠ 0
  | .serverCloses _ | .arrives _ | .shutsDown | .closes | .zeroes | .joins | .loads | .enters
  | .receives | .receivesForeign _ | .messageReturns | .loopEnds | .disconnectReturns => True

/-- The thread has left `read_messages`. -/
def SessionThread.left : SessionThread → Bool
  | .inDisconnect | .ended => true
  | .loading | .calling _ | .receiving _ | .outside => false

namespace ClientSession

/-! ## The steps -/

/-- The steps, one rule per branch. -/
inductive Taken (host peer : ByteOrder) (s : ClientSession) : SessionEvent → ClientSession → Prop
  | serverSends (m : List UInt8) (hopen : s.closedByServer = false) :
      Taken host peer s (.serverSends m) { s with
        down := s.down.write (SocketHandler.message peer m)
        sentByServer := s.sentByServer ++ [m] }
  | serverCloses (kept : ℕ) (hopen : s.closedByServer = false) :
      Taken host peer s (.serverCloses kept) { s with
        closedByServer := true
        down := s.down.cut kept
        lost := (s.down.arrived ++ s.down.inFlight).drop kept }
  | arrives (n : ℕ) (hshut : s.isShut = false) :
      Taken host peer s (.arrives n) { s with down := s.down.transfer n }
  | givenOut (n : ℕ) (hfree : s.table n = .invalid) :
      Taken host peer s (.givenOut n) { s with table := Function.update s.table n .foreign }
  | shutsDown (howner : s.owner = .idle) :
      Taken host peer s .shutsDown { s with owner := .shutDown, isShut := true }
  | closes (howner : s.owner = .shutDown) : Taken host peer s .closes { s with
      owner := .closed
      table := if s.socket = 0 then s.table else Function.update s.table s.socket .invalid }
  | zeroes (howner : s.owner = .closed) :
      Taken host peer s .zeroes { s with owner := .joining, socket := 0 }
  | joins (howner : s.owner = .joining) (hthread : s.thread = .ended) :
      Taken host peer s .joins { s with owner := .destroyed }
  | loads (hthread : s.thread = .loading) :
      Taken host peer s .loads { s with thread := .calling s.socket }
  | enters {n : ℕ} (hthread : s.thread = .calling n) :
      Taken host peer s .enters { s with thread := .receiving (s.table n) }
  | receives {n : ℕ} (hthread : s.thread = .receiving .own)
      (hn : s.loop.stage.requested = some n) (hfull : n ≤ s.down.arrived.length) :
      Taken host peer s .receives
        ({ s with down.arrived := s.down.arrived.drop n }.received host (s.down.arrived.take n))
  | receivesLess {n : ℕ} (hthread : s.thread = .receiving .own)
      (hn : s.loop.stage.requested = some n) (hless : s.down.arrived.length < n)
      (hend : s.isShut = true ∨ s.atEnd = true) : Taken host peer s .receives
        ({ s with down.arrived := [] }.received host s.down.arrived)
  | receivesNothing {n : ℕ} (hthread : s.thread = .receiving .invalid)
      (hn : s.loop.stage.requested = some n) : Taken host peer s .receives (s.received host [])
  | receivesForeign (bytes : List UInt8) {n : ℕ} (hthread : s.thread = .receiving .foreign)
      (hn : s.loop.stage.requested = some n) : Taken host peer s (.receivesForeign bytes)
        ({ s with foreignBytes := s.foreignBytes ++ bytes }.received host bytes)
  | messageReturns (hthread : s.thread = .outside) (hstage : s.loop.stage = .inMessage) :
      Taken host peer s .messageReturns
        { s with thread := .loading, loop := s.loop.messageReturned }
  | loopEnds (hthread : s.thread = .outside) (hstage : s.loop.stage = .ended) :
      Taken host peer s .loopEnds { s with thread := .inDisconnect, loop := s.loop.disconnect }
  | disconnectReturns (hthread : s.thread = .inDisconnect) :
      Taken host peer s .disconnectReturns { s with thread := .ended }

theorem found_iff {n : ℕ} {arrived : List UInt8} : found emptyRecvWaits n arrived = true ↔
    n ≤ arrived.length ∧ ¬ (emptyRecvWaits = true ∧ n = 0 ∧ arrived = []) :=
  decide_eq_true_iff

/-- `recv` that waits although nothing is missing has been asked for nothing. -/
theorem not_found_iff {n : ℕ} {arrived : List UInt8} : found emptyRecvWaits n arrived = false ↔
    arrived.length < n ∨ emptyRecvWaits = true ∧ n = 0 ∧ arrived = [] := by
  rw [← Bool.not_eq_true, found_iff, not_and_or, not_not, Nat.not_le]

theorem step_taken (h : s.step host peer emptyRecvWaits e = some t) : Taken host peer s e t := by
  cases e with
  | serverSends m =>
      simp only [step, Option.ite_none_left_eq_some, Option.some.injEq] at h
      obtain ⟨hopen, rfl⟩ := h
      exact .serverSends m (Bool.eq_false_iff.mpr hopen)
  | serverCloses kept =>
      simp only [step, Option.ite_none_left_eq_some, Option.some.injEq] at h
      obtain ⟨hopen, rfl⟩ := h
      exact .serverCloses kept (Bool.eq_false_iff.mpr hopen)
  | arrives n =>
      simp only [step, Option.ite_none_left_eq_some, Option.some.injEq] at h
      obtain ⟨hshut, rfl⟩ := h
      exact .arrives n (Bool.eq_false_iff.mpr hshut)
  | givenOut n =>
      simp only [step, Option.ite_none_right_eq_some, Option.some.injEq] at h
      obtain ⟨hfree, rfl⟩ := h
      exact .givenOut n hfree
  | shutsDown =>
      simp only [step, Option.ite_none_right_eq_some, Option.some.injEq] at h
      obtain ⟨howner, rfl⟩ := h
      exact .shutsDown howner
  | closes =>
      simp only [step, Option.ite_none_right_eq_some, Option.some.injEq] at h
      obtain ⟨howner, rfl⟩ := h
      exact .closes howner
  | zeroes =>
      simp only [step, Option.ite_none_right_eq_some, Option.some.injEq] at h
      obtain ⟨howner, rfl⟩ := h
      exact .zeroes howner
  | joins =>
      simp only [step, Option.ite_none_right_eq_some, Option.some.injEq] at h
      obtain ⟨⟨howner, hthread⟩, rfl⟩ := h
      exact .joins howner hthread
  | loads =>
      simp only [step, Option.ite_none_right_eq_some, Option.some.injEq] at h
      obtain ⟨hthread, rfl⟩ := h
      exact .loads hthread
  | enters =>
      simp only [step] at h
      split at h
      · rename_i n hthread
        cases h
        exact .enters hthread
      · cases h
  | receives =>
      simp only [step] at h
      split at h
      · rename_i n hthread hn
        split at h
        · rename_i hfound
          cases h
          exact .receives hthread hn (found_iff.mp hfound).1
        · rename_i hfound
          simp only [Option.ite_none_right_eq_some, Option.some.injEq] at h
          obtain ⟨hend, rfl⟩ := h
          rcases not_found_iff.mp (Bool.eq_false_iff.mpr hfound) with hless | ⟨-, rfl, hnil⟩
          · exact .receivesLess hthread hn hless hend
          · have htaken : Taken host peer s .receives
                ({ s with down.arrived := s.down.arrived.drop 0 }.received host
                  (s.down.arrived.take 0)) := .receives hthread hn (Nat.zero_le _)
            rw [hnil] at htaken ⊢
            exact htaken
      · rename_i n hthread hn
        cases h
        exact .receivesNothing hthread hn
      · cases h
  | receivesForeign bytes =>
      simp only [step] at h
      split at h
      · rename_i n hthread hn
        simp only [Option.ite_none_right_eq_some, Option.some.injEq] at h
        obtain ⟨-, rfl⟩ := h
        exact .receivesForeign bytes hthread hn
      · cases h
  | messageReturns =>
      simp only [step, Option.ite_none_right_eq_some, Option.some.injEq] at h
      obtain ⟨⟨hthread, hstage⟩, rfl⟩ := h
      exact .messageReturns hthread hstage
  | loopEnds =>
      simp only [step, Option.ite_none_right_eq_some, Option.some.injEq] at h
      obtain ⟨⟨hthread, hstage⟩, rfl⟩ := h
      exact .loopEnds hthread hstage
  | disconnectReturns =>
      simp only [step, Option.ite_none_right_eq_some, Option.some.injEq] at h
      obtain ⟨hthread, rfl⟩ := h
      exact .disconnectReturns hthread

/-! ## The descriptor -/

/-- The destructor has called `close`. -/
def released (s : ClientSession) : Bool := s.owner ≠ .idle ∧ s.owner ≠ .shutDown

theorem released_iff : s.released = true ↔ s.owner ≠ .idle ∧ s.owner ≠ .shutDown :=
  decide_eq_true_iff

/-- What the numbers in play stand for, and where the thread is in its loop. The number 0 is never
closed, since `_socket` takes it for none. -/
structure Control (fd : ℕ) (s : ClientSession) : Prop where
  shut : s.isShut = true ↔ s.owner ≠ .idle
  socket : s.socket = fd ∨ s.socket = 0 ∧ s.released = true
  held : s.released = false → s.socket = fd
  own : s.released = false ∨ fd = 0 → s.table fd = .own
  closed : s.released = true → fd ≠ 0 → s.table fd = .invalid
  zero : fd ≠ 0 → s.table 0 = .invalid
  calling : ∀ n, s.thread = .calling n → n = fd ∨ n = 0 ∧ s.released = true
  receiving : ∀ target, s.thread = .receiving target →
    target = .own ∨ target = .invalid ∧ fd ≠ 0 ∧ s.released = true
  reading : s.loop.stage.requested.isSome = true ↔ s.thread ≠ .outside ∧ s.thread.left = false
  finished : s.thread.left = true → s.loop.stage = .ended
  foreignBytes : s.foreignBytes = []
  destroyed : s.owner = .destroyed → s.thread = .ended
  lost : s.closedByServer = false → s.lost = []

theorem control_init (host : ByteOrder) (table : ℕ → Target) (size : UInt32)
    (hzero : fd ≠ 0 → table 0 = .invalid) : (init host fd table size).Control fd := by
  constructor <;> simp [init, released, MessageLoop.init, LoopStage.requested, SessionThread.left]
  intro hne
  rw [Function.update_of_ne (Ne.symm hne), hzero hne]

theorem Control.notDestroyed (hC : s.Control fd) {P : Prop} (hthread : s.thread ≠ .ended)
    (howner : s.owner = .destroyed) : P :=
  absurd (hC.destroyed howner) hthread

/-- A call of `recv` has returned. -/
theorem Control.received (hC : s.Control fd) (hthread : ∃ target, s.thread = .receiving target)
    (bytes : List UInt8) (down : Link UInt8) :
    (({ s with down := down } : ClientSession).received host bytes).Control fd := by
  obtain ⟨target, hthread⟩ := hthread
  exact { hC with
    calling := fun n h => by
      simp only [ClientSession.received] at h
      split at h <;> cases h
    receiving := fun n h => by
      simp only [ClientSession.received] at h
      split at h <;> cases h
    reading := by
      simp only [ClientSession.received]
      split
      · rename_i h
        simp [h, SessionThread.left]
      · rename_i h
        simp [h]
    finished := fun h => by
      simp only [ClientSession.received] at h
      split at h <;> cases h
    destroyed := fun h => hC.notDestroyed (by simp [hthread]) h }

/-- Behind `close` the thread finds nothing under its number. -/
theorem Control.table_of_calling (hC : s.Control fd) {n : ℕ} (hthread : s.thread = .calling n)
    (hreleased : s.released = true) (hfd : fd ≠ 0) : s.table n = .invalid := by
  rcases hC.calling _ hthread with rfl | ⟨rfl, -⟩
  · exact hC.closed hreleased hfd
  · exact hC.zero hfd

theorem control_step (hC : s.Control fd) (he : e.Fair fd) (h : Taken host peer s e t) :
    t.Control fd := by
  cases h with
  | serverSends | arrives => exact { hC with }
  | serverCloses => exact { hC with lost := fun h => by cases h }
  | givenOut n hfree =>
      obtain ⟨hfd, hzero⟩ := he
      exact { hC with
        own := fun h => (Function.update_of_ne (Ne.symm hfd) _ _).trans (hC.own h)
        closed := fun h hne => (Function.update_of_ne (Ne.symm hfd) _ _).trans (hC.closed h hne)
        zero := fun h => (Function.update_of_ne (Ne.symm hzero) _ _).trans (hC.zero h) }
  | shutsDown howner =>
      have hreleased : s.released = false := by simp [released, howner]
      refine { hC with
        shut := by simp
        socket := .inl (hC.held hreleased)
        held := fun _ => hC.held hreleased
        own := fun _ => hC.own (.inl hreleased)
        closed := fun h => by simp [released] at h
        calling := fun n h => .inl ((hC.calling n h).resolve_right (by simp [hreleased]))
        receiving := fun n h => .inl ((hC.receiving n h).resolve_right (by simp [hreleased]))
        destroyed := fun h => by cases h }
  | closes howner =>
      have hreleased : s.released = false := by simp [released, howner]
      have hsocket := hC.held hreleased
      refine { hC with
        shut := ?_
        socket := .inl hsocket
        held := fun h => by simp [released] at h
        own := fun h => ?_
        closed := fun _ hne => ?_
        zero := fun hne => ?_
        calling := fun n h => .inl ((hC.calling n h).resolve_right (by simp [hreleased]))
        receiving := fun n h => .inl ((hC.receiving n h).resolve_right (by simp [hreleased]))
        destroyed := fun h => by cases h }
      · have hshut := hC.shut
        simpa [howner] using hshut
      · have hfd : fd = 0 := h.resolve_left (by simp [released])
        simp only [hsocket, hfd, if_true]
        exact hfd ▸ hC.own (.inr hfd)
      · simp only [hsocket, if_neg hne, Function.update_self]
      · simp only [hsocket, if_neg hne]
        rw [Function.update_of_ne (Ne.symm hne)]
        exact hC.zero hne
  | zeroes howner =>
      have hreleased : s.released = true := by simp [released, howner]
      refine { hC with
        shut := ?_
        socket := .inr ⟨rfl, by simp [released]⟩
        held := fun h => by simp [released] at h
        own := fun h => hC.own (.inr (h.resolve_left (by simp [released])))
        closed := fun _ => hC.closed hreleased
        calling := fun n h => (hC.calling n h).imp_right fun h => ⟨h.1, by simp [released]⟩
        receiving := fun n h => (hC.receiving n h).imp_right fun h =>
          ⟨h.1, h.2.1, by simp [released]⟩
        destroyed := fun h => by cases h }
      have hshut := hC.shut
      simpa [howner] using hshut
  | joins howner hthread =>
      have hreleased : s.released = true := by simp [released, howner]
      refine { hC with
        shut := ?_
        socket := hC.socket.imp_right fun h => ⟨h.1, by simp [released]⟩
        held := fun h => by simp [released] at h
        own := fun h => hC.own (.inr (h.resolve_left (by simp [released])))
        closed := fun _ => hC.closed hreleased
        calling := fun n h => by rw [hthread] at h; cases h
        receiving := fun n h => by rw [hthread] at h; cases h
        destroyed := fun _ => hthread }
      have hshut := hC.shut
      simpa [howner] using hshut
  | loads hthread =>
      have hreading := hC.reading
      rw [hthread] at hreading
      refine { hC with
        calling := fun n h => ?_
        receiving := fun n h => by cases h
        reading := by simpa [SessionThread.left] using hreading
        finished := fun h => by cases h
        destroyed := fun h => hC.notDestroyed (by simp [hthread]) h }
      cases h
      exact hC.socket
  | enters hthread =>
      have hreading := hC.reading
      rw [hthread] at hreading
      refine { hC with
        calling := fun n h => by cases h
        receiving := fun target h => ?_
        reading := by simpa [SessionThread.left] using hreading
        finished := fun h => by cases h
        destroyed := fun h => hC.notDestroyed (by simp [hthread]) h }
      cases h
      by_cases hfd : fd = 0
      · rcases hC.calling _ hthread with rfl | ⟨rfl, -⟩
        · exact .inl (hC.own (.inr hfd))
        · exact .inl (hfd ▸ hC.own (.inr hfd))
      · cases hreleased : s.released with
        | false =>
            have hn := (hC.calling _ hthread).resolve_right (by simp [hreleased])
            exact .inl (hn ▸ hC.own (.inl hreleased))
        | true => exact .inr ⟨hC.table_of_calling hthread hreleased hfd, hfd, hreleased⟩
  | receives hthread hn hfull => exact hC.received ⟨_, hthread⟩ _ _
  | receivesLess hthread hn hless hend => exact hC.received ⟨_, hthread⟩ _ _
  | receivesNothing hthread hn => exact hC.received ⟨_, hthread⟩ [] s.down
  | receivesForeign bytes hthread hn =>
      have hown := hC.receiving _ hthread
      simp at hown
  | messageReturns hthread hstage =>
      exact { hC with
        calling := fun n h => by cases h
        receiving := fun n h => by cases h
        reading := by simp [MessageLoop.messageReturned, LoopStage.requested, SessionThread.left]
        finished := fun h => by cases h
        destroyed := fun h => hC.notDestroyed (by simp [hthread]) h }
  | loopEnds hthread hstage =>
      exact { hC with
        calling := fun n h => by cases h
        receiving := fun n h => by cases h
        reading := by simp [MessageLoop.disconnect, hstage, LoopStage.requested, SessionThread.left]
        finished := fun _ => hstage
        destroyed := fun h => hC.notDestroyed (by simp [hthread]) h }
  | disconnectReturns hthread =>
      have hstage := hC.finished (by simp [hthread, SessionThread.left])
      exact { hC with
        calling := fun n h => by cases h
        receiving := fun n h => by cases h
        reading := by simp [hstage, LoopStage.requested, SessionThread.left]
        finished := fun _ => hstage
        destroyed := fun _ => rfl }

/-! ## The calls of `inbound` -/

/-- What comes from the server, with what its close has taken away. -/
def whole (s : ClientSession) : Link UInt8 :=
  { s.down with inFlight := s.down.inFlight ++ s.lost }

/-- Nothing will be received any more, although the server has sent more or may do so. -/
structure Dry (fd : ℕ) (s : ClientSession) : Prop where
  drained : s.isShut = true ∨ s.atEnd = true ∧ s.lost ≠ []
  empty : s.down.arrived = [] ∨ fd ≠ 0 ∧ s.released = true ∧ s.thread ≠ .receiving .own

/-- What `inbound` has been told: whole messages, at most one that the destructor or the close by
the server has cut, and `disconnect` at last. -/
inductive Told (fd : ℕ) (s : ClientSession) : Prop
  | whole (hthread : s.thread.left = false)
      (hreads : s.loop.Reads .bigEndian s.whole s.sentByServer)
      (hclosed : s.loop.stage = .ended → s.closedByServer = true ∧ s.lost = [])
  | cut (passed rest cut : List (List UInt8)) (hthread : s.thread.left = false)
      (hdry : s.Dry fd) (hstage : ∀ n, s.loop.stage ≠ .payload n)
      (hcalls : s.loop.calls = passed.map .message ++ cut.map .message) (hcut : cut.length ≤ 1)
      (hsent : s.sentByServer = passed ++ rest)
  | gone (passed rest cut : List (List UInt8)) (hthread : s.thread.left = true)
      (hcalls : s.loop.calls = passed.map .message ++ cut.map .message ++ [.disconnect])
      (hcut : cut.length ≤ 1) (hsent : s.sentByServer = passed ++ rest)
      (hwhole : s.isShut = false →
        s.closedByServer = true ∧ (s.lost = [] → cut = [] ∧ rest = []))

theorem told_init (host : ByteOrder) (table : ℕ → Target) (size : UInt32) :
    (init host fd table size).Told fd :=
  .whole rfl (MessageLoop.reads_init host .bigEndian size) fun h => by cases h

theorem reading_received (s : ClientSession) (bytes : List UInt8) :
    (s.received host bytes).thread.left = false := by
  simp only [ClientSession.received]
  split <;> rfl

theorem thread_received (s : ClientSession) (bytes : List UInt8) (target : Target) :
    (s.received host bytes).thread ≠ .receiving target := by
  simp only [ClientSession.received]
  split <;> simp

/-- A header that does not come in full ends the loop. -/
theorem returned_of_less (host : ByteOrder) {l : MessageLoop} (hstage : l.stage = .header)
    {bytes : List UInt8} (hbytes : bytes.length < 4) :
    (l.returned host true bytes).stage = .ended ∧ (l.returned host true bytes).calls = l.calls := by
  simp only [MessageLoop.returned, hstage, if_neg hbytes.ne, and_self]

/-- A payload is passed on, whatever has come of it. -/
theorem returned_of_payload (host : ByteOrder) {l : MessageLoop} {n : ℕ}
    (hstage : l.stage = .payload n) (bytes : List UInt8) :
    (l.returned host true bytes).stage = .inMessage ∧
      ∃ m, (l.returned host true bytes).calls = l.calls ++ [.message m] := by
  simp only [MessageLoop.returned, hstage]
  exact ⟨trivial, _, rfl⟩

/-- A read has been cut: the loop ends, or one message more is passed on. -/
theorem told_of_cut (hreads : s.loop.Reads .bigEndian s.whole s.sentByServer) {n : ℕ}
    (hn : s.loop.stage.requested = some n) {bytes : List UInt8}
    (hless : s.loop.stage = .header → bytes.length < 4) {down : Link UInt8}
    (hdry : (({ s with down := down } : ClientSession).received host bytes).Dry fd) :
    (({ s with down := down } : ClientSession).received host bytes).Told fd := by
  obtain ⟨passed, rest, hcalls, hsent, -⟩ := hreads.ahead
  cases hstage : s.loop.stage with
  | header =>
      obtain ⟨hended, hsame⟩ := returned_of_less host hstage (hless hstage)
      refine .cut passed rest [] (reading_received _ _) hdry ?_ ?_ (Nat.zero_le _) hsent
      · intro n h
        cases hended.symm.trans h
      · rw [List.map_nil, List.append_nil]
        exact hsame.trans hcalls
  | payload k =>
      obtain ⟨hmessage, m, hmore⟩ := returned_of_payload host hstage bytes
      refine .cut passed rest [m] (reading_received _ _) hdry ?_ ?_ le_rfl hsent
      · intro n h
        cases hmessage.symm.trans h
      · rw [hcalls] at hmore
        exact hmore
  | inMessage | ended =>
      rw [hstage] at hn
      cases hn

/-- Behind a cut read there is at most a header, which is cut as well. -/
theorem told_of_dry {passed rest cut : List (List UInt8)} (hstage : ∀ n, s.loop.stage ≠ .payload n)
    (hcalls : s.loop.calls = passed.map .message ++ cut.map .message) (hcut : cut.length ≤ 1)
    (hsent : s.sentByServer = passed ++ rest) {n : ℕ} (hn : s.loop.stage.requested = some n)
    {bytes : List UInt8} (hless : s.loop.stage = .header → bytes.length < 4) {down : Link UInt8}
    (hdry : (({ s with down := down } : ClientSession).received host bytes).Dry fd) :
    (({ s with down := down } : ClientSession).received host bytes).Told fd := by
  cases hl : s.loop.stage with
  | header =>
      obtain ⟨hended, hsame⟩ := returned_of_less host hl (hless hl)
      refine .cut passed rest cut (reading_received _ _) hdry ?_ (hsame.trans hcalls) hcut hsent
      intro n h
      cases hended.symm.trans h
  | payload k => exact absurd hl (hstage k)
  | inMessage | ended =>
      rw [hl] at hn
      cases hn

theorem atEnd_iff : s.atEnd = true ↔ s.closedByServer = true ∧ s.down.inFlight = [] :=
  decide_eq_true_iff

theorem Dry.of_same (h : s.Dry fd) (hshut : s.isShut = true → t.isShut = true)
    (hclosed : s.closedByServer = true → t.closedByServer = true) (hdown : t.down = s.down)
    (hlost : t.lost = s.lost) (hreleased : s.released = true → t.released = true)
    (hthread : s.thread ≠ .receiving .own → t.thread ≠ .receiving .own) : t.Dry fd := by
  refine ⟨?_, ?_⟩
  · rw [atEnd_iff, hdown, hlost]
    refine h.drained.imp hshut fun hdrained => ?_
    obtain ⟨hserver, hinFlight⟩ := atEnd_iff.mp hdrained.1
    exact ⟨⟨hclosed hserver, hinFlight⟩, hdrained.2⟩
  · rw [hdown]
    exact h.empty.imp_right fun h => ⟨h.1, hreleased h.2.1, hthread h.2.2⟩

/-- Before the server has closed the connection it is the destructor that keeps everything away. -/
theorem Dry.isShut (h : s.Dry fd) (hopen : s.closedByServer = false) : s.isShut = true := by
  refine h.drained.resolve_right fun hdrained => ?_
  cases hopen.symm.trans (atEnd_iff.mp hdrained.1).1

/-- Something happens that neither the thread nor the server does. -/
theorem Told.of_same (h : s.Told fd) (hthread : t.thread = s.thread) (hloop : t.loop = s.loop)
    (hdown : t.down = s.down) (hlost : t.lost = s.lost) (hsent : t.sentByServer = s.sentByServer)
    (hclosed : s.closedByServer = true → t.closedByServer = true)
    (hshut : s.isShut = true → t.isShut = true)
    (hreleased : s.released = true → t.released = true) : t.Told fd := by
  cases h with
  | whole hleft hreads hended =>
      refine .whole (hthread ▸ hleft) ?_ fun h => ?_
      · rw [ClientSession.whole, hloop, hdown, hlost, hsent]
        exact hreads
      · rw [hlost]
        exact (hended (hloop ▸ h)).imp_left hclosed
  | cut passed rest cut hleft hdry hstage hcalls hcut hrest =>
      refine .cut passed rest cut (hthread ▸ hleft) ?_ (hloop ▸ hstage) (hloop ▸ hcalls) hcut
        (hsent ▸ hrest)
      exact hdry.of_same hshut hclosed hdown hlost hreleased fun h => hthread ▸ h
  | gone passed rest cut hleft hcalls hcut hrest hwhole =>
      refine .gone passed rest cut (hthread ▸ hleft) (hloop ▸ hcalls) hcut (hsent ▸ hrest) ?_
      intro hopen
      have hsame : s.isShut = false := by
        rw [Bool.eq_false_iff]
        intro h
        rw [hshut h] at hopen
        cases hopen
      rw [hlost]
      exact (hwhole hsame).imp_left hclosed

theorem told_receives (hT : s.Told fd) {n : ℕ} (hthread : s.thread = .receiving .own)
    (hn : s.loop.stage.requested = some n) (hfull : n ≤ s.down.arrived.length) :
    (({ s with down.arrived := s.down.arrived.drop n } : ClientSession).received host
      (s.down.arrived.take n)).Told fd := by
  cases hT with
  | whole hleft hreads hclosed =>
      cases hstage : s.loop.stage with
      | header =>
          rw [hstage] at hn
          cases hn
          obtain ⟨hreads', k, hk⟩ :=
            MessageLoop.Reads.obtainsHeader host true hreads hstage hfull
          exact .whole (reading_received _ _) hreads' fun h => by cases hk.symm.trans h
      | payload k =>
          rw [hstage] at hn
          cases hn
          obtain ⟨hreads', hk⟩ :=
            hreads.obtainsPayload host true hstage hfull
          exact .whole (reading_received _ _) hreads' fun h => by cases hk.symm.trans h
      | inMessage | ended =>
          rw [hstage] at hn
          cases hn
  | cut passed rest cut hleft hdry hstage hcalls hcut hsent =>
      have harrived : s.down.arrived = [] := hdry.empty.resolve_right fun h => h.2.2 hthread
      rw [harrived, List.length_nil, Nat.le_zero] at hfull
      subst hfull
      cases hl : s.loop.stage with
      | payload k => exact absurd hl (hstage k)
      | header | inMessage | ended =>
          rw [hl] at hn
          cases hn
  | gone passed rest cut hleft =>
      rw [hthread] at hleft
      cases hleft

theorem told_receivesLess (hT : s.Told fd) {n : ℕ} (hthread : s.thread = .receiving .own)
    (hn : s.loop.stage.requested = some n) (hless : s.down.arrived.length < n)
    (hend : s.isShut = true ∨ s.atEnd = true) :
    (({ s with down.arrived := [] } : ClientSession).received host s.down.arrived).Told fd := by
  have hheader : s.loop.stage = .header → s.down.arrived.length < 4 := by
    intro h
    rw [h] at hn
    cases hn
    exact hless
  cases hT with
  | whole hleft hreads hclosed =>
      by_cases hatEnd : s.atEnd = true ∧ s.lost = []
      · obtain ⟨hserver, hinFlight⟩ := atEnd_iff.mp hatEnd.1
        have hnothing : s.whole.inFlight = [] := by
          rw [ClientSession.whole, hinFlight, hatEnd.2, List.append_nil]
        obtain ⟨hreads', -⟩ := hreads.obtainsLess host true hn hless hnothing
        refine .whole (reading_received _ _) ?_ fun _ => ⟨hserver, hatEnd.2⟩
        apply hreads'.move
        simp only [ClientSession.received, ClientSession.whole, hinFlight, hatEnd.2,
          List.append_nil]
      · refine told_of_cut hreads hn hheader ⟨hend.imp_right fun hall => ?_, .inl rfl⟩
        exact ⟨hall, fun hlost => hatEnd ⟨hall, hlost⟩⟩
  | cut passed rest cut hleft hdry hstage hcalls hcut hsent =>
      exact told_of_dry hstage hcalls hcut hsent hn hheader ⟨hdry.drained, .inl rfl⟩
  | gone passed rest cut hleft =>
      rw [hthread] at hleft
      cases hleft

theorem told_receivesNothing (hC : s.Control fd) (hT : s.Told fd) {n : ℕ}
    (hthread : s.thread = .receiving .invalid) (hn : s.loop.stage.requested = some n) :
    (s.received host []).Told fd := by
  obtain ⟨-, hfd, hreleased⟩ := (hC.receiving _ hthread).resolve_left (by simp)
  have hshut : s.isShut = true := hC.shut.mpr (released_iff.mp hreleased).1
  have hdry : (s.received host []).Dry fd :=
    ⟨.inl hshut, .inr ⟨hfd, hreleased, thread_received _ _ _⟩⟩
  have hnothing : s.loop.stage = .header → ([] : List UInt8).length < 4 := fun _ => by decide
  cases hT with
  | whole hleft hreads hclosed =>
      exact told_of_cut hreads hn hnothing hdry
  | cut passed rest cut hleft hdry' hstage hcalls hcut hsent =>
      exact told_of_dry hstage hcalls hcut hsent hn hnothing hdry
  | gone passed rest cut hleft =>
      rw [hthread] at hleft
      cases hleft

theorem told_serverSends (hC : s.Control fd) (hT : s.Told fd) (peer : ByteOrder) {m : List UInt8}
    (hm : m.length < 2 ^ 32) (hopen : s.closedByServer = false) :
    ({ s with
      down := s.down.write (SocketHandler.message peer m)
      sentByServer := s.sentByServer ++ [m] } : ClientSession).Told fd := by
  cases hT with
  | whole hleft hreads hclosed =>
      have hstage : s.loop.stage ≠ .ended := fun h => by
        rw [(hclosed h).1] at hopen
        cases hopen
      have hwrite := hreads.write hstage hm
      rw [← SocketHandler.message_eq_frame peer hm] at hwrite
      refine .whole hleft (hwrite.move ?_) hclosed
      simp only [ClientSession.whole, Link.write, hC.lost hopen, List.append_nil]
  | cut passed rest cut hleft hdry hstage hcalls hcut hsent =>
      refine .cut passed (rest ++ [m]) cut hleft ⟨.inl (hdry.isShut hopen), hdry.empty⟩ hstage
        hcalls hcut ?_
      rw [hsent, List.append_assoc]
  | gone passed rest cut hleft hcalls hcut hsent hwhole =>
      refine .gone passed (rest ++ [m]) cut hleft hcalls hcut ?_ ?_
      · rw [hsent, List.append_assoc]
      · intro hshut
        rw [(hwhole hshut).1] at hopen
        cases hopen

/-- What the close takes away goes on to count as sent. -/
theorem told_serverCloses (hC : s.Control fd) (hT : s.Told fd) (kept : ℕ)
    (hopen : s.closedByServer = false) :
    ({ s with
      closedByServer := true
      down := s.down.cut kept
      lost := (s.down.arrived ++ s.down.inFlight).drop kept } : ClientSession).Told fd := by
  cases hT with
  | whole hleft hreads hclosed =>
      refine .whole hleft (hreads.move ?_) fun h => ?_
      · rw [ClientSession.whole, ClientSession.whole, hC.lost hopen, List.append_nil,
          ← List.append_assoc, Link.stream_cut, List.take_append_drop]
      · rw [(hclosed h).1] at hopen
        cases hopen
  | cut passed rest cut hleft hdry hstage hcalls hcut hsent =>
      refine .cut passed rest cut hleft ⟨.inl (hdry.isShut hopen), ?_⟩ hstage hcalls hcut hsent
      refine hdry.empty.imp_left fun harrived => ?_
      rw [Link.cut, harrived, List.take_nil]
  | gone passed rest cut hleft hcalls hcut hsent hwhole =>
      refine .gone passed rest cut hleft hcalls hcut hsent fun hshut => ?_
      rw [(hwhole hshut).1] at hopen
      cases hopen

theorem told_arrives (hC : s.Control fd) (hT : s.Told fd) (n : ℕ) (hshut : s.isShut = false) :
    ({ s with down := s.down.transfer n } : ClientSession).Told fd := by
  cases hT with
  | whole hleft hreads hclosed =>
      refine .whole hleft (hreads.move ?_) hclosed
      simp only [ClientSession.whole, Link.transfer]
      rw [List.append_assoc, ← List.append_assoc (s.down.inFlight.take n), List.take_append_drop]
  | cut passed rest cut hleft hdry hstage hcalls hcut hsent =>
      have hdrained := hdry.drained.resolve_left (by simp [hshut])
      have hinFlight := (atEnd_iff.mp hdrained.1).2
      have harrived : s.down.arrived = [] := by
        refine hdry.empty.resolve_right fun h => ?_
        cases hshut.symm.trans (hC.shut.mpr (released_iff.mp h.2.1).1)
      refine .cut passed rest cut hleft (hdry.of_same id id ?_ rfl id id) hstage hcalls hcut hsent
      cases hdown : s.down with
      | mk arrived inFlight => simp_all [Link.transfer]
  | gone passed rest cut hleft hcalls hcut hsent hwhole =>
      exact .gone passed rest cut hleft hcalls hcut hsent hwhole

theorem told_step (hC : s.Control fd) (hT : s.Told fd) (he : e.Fair fd)
    (h : Taken host peer s e t) : t.Told fd := by
  cases h with
  | serverSends m hopen => exact told_serverSends hC hT peer he hopen
  | serverCloses kept hopen => exact told_serverCloses hC hT kept hopen
  | arrives n hshut => exact told_arrives hC hT n hshut
  | givenOut => exact hT.of_same rfl rfl rfl rfl rfl id id id
  | shutsDown howner =>
      exact hT.of_same rfl rfl rfl rfl rfl id (fun _ => rfl) fun h => by
        simp [released, howner] at h
  | closes howner =>
      exact hT.of_same rfl rfl rfl rfl rfl id id fun h => by simp [released, howner] at h
  | zeroes | joins => exact hT.of_same rfl rfl rfl rfl rfl id id fun _ => by simp [released]
  | loads hthread =>
      cases hT with
      | whole hleft hreads hclosed => exact .whole rfl hreads hclosed
      | cut passed rest cut hleft hdry hstage hcalls hcut hsent =>
          refine .cut passed rest cut rfl ?_ hstage hcalls hcut hsent
          exact hdry.of_same id id rfl rfl id fun _ => by simp
      | gone passed rest cut hleft =>
          rw [hthread] at hleft
          cases hleft
  | enters hthread =>
      cases hT with
      | whole hleft hreads hclosed => exact .whole rfl hreads hclosed
      | cut passed rest cut hleft hdry hstage hcalls hcut hsent =>
          refine .cut passed rest cut rfl ?_ hstage hcalls hcut hsent
          refine ⟨hdry.drained, hdry.empty.imp_right fun h => ⟨h.1, h.2.1, ?_⟩⟩
          rw [hC.table_of_calling hthread h.2.1 h.1]
          simp
      | gone passed rest cut hleft =>
          rw [hthread] at hleft
          cases hleft
  | receives hthread hn hfull => exact told_receives hT hthread hn hfull
  | receivesLess hthread hn hless hend => exact told_receivesLess hT hthread hn hless hend
  | receivesNothing hthread hn => exact told_receivesNothing hC hT hthread hn
  | receivesForeign bytes hthread hn =>
      have hown := hC.receiving _ hthread
      simp at hown
  | messageReturns hthread hstage =>
      cases hT with
      | whole hleft hreads hclosed =>
          exact .whole rfl (hreads.messageReturned hstage) fun h => by cases h
      | cut passed rest cut hleft hdry hpayload hcalls hcut hsent =>
          refine .cut passed rest cut rfl ?_ (fun n h => by cases h) hcalls hcut hsent
          exact hdry.of_same id id rfl rfl id fun _ => by simp
      | gone passed rest cut hleft =>
          rw [hthread] at hleft
          cases hleft
  | loopEnds hthread hstage =>
      cases hT with
      | whole hleft hreads hclosed =>
          refine .gone s.sentByServer [] [] rfl ?_ (Nat.zero_le _) (List.append_nil _).symm ?_
          · rw [List.map_nil, List.append_nil, ← hreads.calls_of_ended hstage]
            rfl
          · exact fun _ => ⟨(hclosed hstage).1, fun _ => ⟨rfl, rfl⟩⟩
      | cut passed rest cut hleft hdry hpayload hcalls hcut hsent =>
          refine .gone passed rest cut rfl ?_ hcut hsent ?_
          · rw [← hcalls]
            rfl
          · intro hshut
            have hdrained := hdry.drained.resolve_left (Bool.eq_false_iff.mp hshut)
            exact ⟨(atEnd_iff.mp hdrained.1).1, fun hlost => absurd hlost hdrained.2⟩
      | gone passed rest cut hleft =>
          rw [hthread] at hleft
          cases hleft
  | disconnectReturns hthread =>
      cases hT with
      | gone passed rest cut hleft hcalls hcut hsent hwhole =>
          exact .gone passed rest cut rfl hcalls hcut hsent hwhole
      | whole hleft | cut passed rest cut hleft =>
          rw [hthread] at hleft
          cases hleft

/-- What holds in every state that is reached. -/
structure Inv (fd : ℕ) (s : ClientSession) : Prop where
  control : s.Control fd
  told : s.Told fd

theorem inv_step (hI : s.Inv fd) (he : e.Fair fd)
    (h : s.step host peer emptyRecvWaits e = some t) : t.Inv fd :=
  ⟨control_step hI.control he (step_taken h), told_step hI.control hI.told he (step_taken h)⟩

theorem inv_run {table : ℕ → Target} {size : UInt32} {events : List SessionEvent}
    (hzero : fd ≠ 0 → table 0 = .invalid) (hfair : ∀ e ∈ events, e.Fair fd)
    (hrun : run (step host peer emptyRecvWaits) (init host fd table size) events = some s) :
    s.Inv fd :=
  run_invariant (P := fun _ e => e.Fair fd) (Inv fd) (fun _ _ _ hI he hs => inv_step hI he hs)
    ⟨control_init host table size hzero, told_init host table size⟩
    (along_of_forall (fun e he _ => hfair e he) _) hrun

/-- `inbound` gets the messages of the server in order, and `disconnect` once and last. Only the
destructor and a close by the server that loses bytes make the thread pass on a message that has not
come in full, and only one. -/
structure LifeCycle (s : ClientSession) : Prop where
  calls : ∃ passed rest cut : List (List UInt8), s.sentByServer = passed ++ rest ∧
    cut.length ≤ 1 ∧ (s.loop.calls = passed.map .message ++ cut.map .message ∨
      s.loop.calls = passed.map .message ++ cut.map .message ++ [.disconnect])
  undisturbed : s.owner = .idle → s.lost = [] →
    s.loop.calls <+: s.sentByServer.map .message ++ [.disconnect]
  disconnected : s.owner = .idle → .disconnect ∈ s.loop.calls → s.closedByServer = true ∧
    (s.lost = [] → s.loop.calls = s.sentByServer.map .message ++ [.disconnect])
  destroyed : s.owner = .destroyed → .disconnect ∈ s.loop.calls
  foreignBytes : s.foreignBytes = []

theorem Inv.lifeCycle (hI : s.Inv fd) : s.LifeCycle := by
  have hidle : s.owner = .idle → s.isShut = false := by
    intro howner
    rw [Bool.eq_false_iff]
    exact fun hshut => hI.control.shut.mp hshut howner
  cases hI.told with
  | whole hleft hreads hclosed =>
      obtain ⟨passed, rest, hcalls, hsent, -⟩ := hreads.ahead
      refine ⟨⟨passed, rest, [], hsent, Nat.zero_le _, .inl ?_⟩, ?_, ?_, ?_,
        hI.control.foreignBytes⟩
      · rw [hcalls, List.map_nil, List.append_nil]
      · exact fun _ _ => hreads.calls_prefix.trans (List.prefix_append _ _)
      · exact fun _ h => absurd h hreads.disconnect_notMem
      · intro howner
        rw [hI.control.destroyed howner] at hleft
        cases hleft
  | cut passed rest cut hleft hdry hstage hcalls hcut hsent =>
      have hnothing : .disconnect ∉ s.loop.calls := by
        rw [hcalls]
        simp
      refine ⟨⟨passed, rest, cut, hsent, hcut, .inl hcalls⟩, ?_, ?_, ?_, hI.control.foreignBytes⟩
      · intro howner hlost
        have hdrained := hdry.drained.resolve_left (by simp [hidle howner])
        exact absurd hlost hdrained.2
      · exact fun _ h => absurd h hnothing
      · intro howner
        rw [hI.control.destroyed howner] at hleft
        cases hleft
  | gone passed rest cut hleft hcalls hcut hsent hwhole =>
      have hall : s.owner = .idle → s.lost = [] →
          s.loop.calls = s.sentByServer.map .message ++ [.disconnect] := by
        intro howner hlost
        obtain ⟨rfl, rfl⟩ := (hwhole (hidle howner)).2 hlost
        rw [List.append_nil] at hsent
        rw [List.map_nil, List.append_nil] at hcalls
        exact hsent ▸ hcalls
      refine ⟨⟨passed, rest, cut, hsent, hcut, .inr hcalls⟩, ?_, ?_, ?_,
        hI.control.foreignBytes⟩
      · intro howner hlost
        rw [hall howner hlost]
      · exact fun howner _ => ⟨(hwhole (hidle howner)).1, hall howner⟩
      · intro _
        rw [hcalls]
        exact List.mem_append_right _ List.mem_cons_self

/-! ## Progress -/

end ClientSession

/-- A call under way goes on: the thread does, or the destructor that has been called. -/
def SessionEvent.continues : SessionEvent → Bool
  | .closes | .zeroes | .joins | .loads | .enters | .receives | .messageReturns | .loopEnds
  | .disconnectReturns => true
  | .serverSends _ | .serverCloses _ | .arrives _ | .givenOut _ | .shutsDown
  | .receivesForeign _ => false

/-- What a new message takes at most. -/
def SessionEvent.cost : SessionEvent → ℕ
  | .serverSends m => 2 * (m.length + 4)
  | .serverCloses _ | .arrives _ | .givenOut _ | .shutsDown | .closes | .zeroes | .joins | .loads
  | .enters | .receives | .receivesForeign _ | .messageReturns | .loopEnds
  | .disconnectReturns => 0

def SessionOwner.left : SessionOwner → ℕ
  | .idle | .shutDown => 3
  | .closed => 2
  | .joining => 1
  | .destroyed => 0

/-- The steps of the thread up to the next byte that it needs. -/
def SessionThread.stepsLeft : SessionThread → LoopStage → ℕ
  | .loading, .payload _ => 9
  | .calling _, .payload _ => 8
  | .receiving _, .payload _ => 7
  | .outside, .inMessage => 6
  | .loading, _ => 5
  | .calling _, _ => 4
  | .receiving _, _ => 3
  | .outside, _ => 2
  | .inDisconnect, _ => 1
  | .ended, _ => 0

namespace ClientSession

/-- The steps that are left are no more, unless the server sends something. -/
def left (s : ClientSession) : ℕ :=
  2 * (s.down.arrived.length + s.down.inFlight.length) + s.owner.left +
    s.thread.stepsLeft s.loop.stage

/-- No call under way can go on. -/
def Stuck (host peer : ByteOrder) (emptyRecvWaits : Bool) (s : ClientSession) : Prop :=
  ∀ e : SessionEvent, e.continues = true → s.step host peer emptyRecvWaits e = none

/-- The thread waits for the server, and whatever has come it has passed on, but for an empty
message behind which nothing has come. -/
structure Waiting (emptyRecvWaits : Bool) (s : ClientSession) : Prop where
  owner : s.owner = .idle
  thread : s.thread = .receiving .own
  less : ∃ n, s.loop.stage.requested = some n ∧ (s.down.arrived.length < n ∨
    emptyRecvWaits = true ∧ n = 0 ∧ s.down.arrived = [])
  notAtEnd : s.atEnd = false
  calls : s.down.inFlight = [] → s.closedByServer = false ∧
    (s.loop.calls = s.sentByServer.map .message ∨
      emptyRecvWaits = true ∧ s.loop.stage = .payload 0 ∧
        s.sentByServer.map .message = s.loop.calls ++ [.message []])

theorem length_message (peer : ByteOrder) (m : List UInt8) :
    (SocketHandler.message peer m).length ≤ m.length + 4 := by
  rw [SocketHandler.message, writeMessage, List.length_append, sendScalar,
    ByteRepresentation.length_reorder _ (ByteRepresentation.length_bytes _ _), List.length_take]
  omega

variable (host) in
/-- The bytes of a header pay for the read of the payload. -/
theorem stepsLeft_returned {l : MessageLoop} {n : ℕ} (hn : l.stage.requested = some n)
    (target : Target) (bytes : List UInt8) :
    let l' := l.returned host true bytes
    (if l'.stage.requested.isSome then SessionThread.loading else .outside).stepsLeft l'.stage + 1 ≤
      (SessionThread.receiving target).stepsLeft l.stage + 2 * bytes.length := by
  cases hstage : l.stage with
  | header =>
      simp only [MessageLoop.returned, hstage]
      split
      · simp only [LoopStage.requested, Option.isSome_some, if_true, SessionThread.stepsLeft]
        omega
      · simp only [LoopStage.requested, Option.isSome_none, Bool.false_eq_true, if_false,
          SessionThread.stepsLeft]
        omega
  | payload k =>
      simp only [MessageLoop.returned, hstage, LoopStage.requested, Option.isSome_none,
        Bool.false_eq_true, if_false, SessionThread.stepsLeft]
      omega
  | inMessage | ended =>
      rw [hstage] at hn
      cases hn

theorem left_received {target : Target} {n : ℕ} {bytes : List UInt8} {down : Link UInt8}
    (hthread : s.thread = .receiving target) (hn : s.loop.stage.requested = some n)
    (harrived : down.arrived.length + bytes.length = s.down.arrived.length)
    (hinFlight : down.inFlight = s.down.inFlight) :
    (({ s with down := down } : ClientSession).received host bytes).left + 1 ≤ s.left := by
  have hsteps := stepsLeft_returned host hn target bytes
  simp only [left, ClientSession.received, hthread, hinFlight]
  omega

theorem left_step (hC : s.Control fd) (h : Taken host peer s e t) :
    (if e.continues then 1 else 0) + t.left ≤ s.left + e.cost := by
  cases h with
  | serverSends m hopen =>
      have hlength := length_message peer m
      simp only [SessionEvent.continues, SessionEvent.cost, left, Link.write, List.length_append,
        Bool.false_eq_true, if_false]
      omega
  | arrives n hshut =>
      simp only [SessionEvent.continues, left, Link.transfer, List.length_append, List.length_take,
        List.length_drop, Bool.false_eq_true, if_false]
      omega
  | serverCloses kept hopen =>
      simp only [SessionEvent.continues, left, Link.cut, List.length_take, Bool.false_eq_true,
        if_false]
      omega
  | givenOut =>
      simp only [SessionEvent.continues, left, Bool.false_eq_true, if_false]
      omega
  | shutsDown howner | closes howner | zeroes howner | joins howner =>
      simp only [SessionEvent.continues, left, howner, SessionOwner.left, Bool.false_eq_true,
        if_true, if_false]
      omega
  | loads hthread | enters hthread =>
      simp only [SessionEvent.continues, left, hthread, if_true]
      cases s.loop.stage <;> simp only [SessionThread.stepsLeft] <;> omega
  | @receives n hthread hn hfull =>
      have hlen : (s.down.arrived.drop n).length + (s.down.arrived.take n).length =
          s.down.arrived.length := by
        rw [List.length_drop, List.length_take]
        omega
      rw [SessionEvent.continues, if_pos rfl, Nat.add_comm]
      exact left_received hthread hn hlen rfl
  | receivesLess hthread hn hless hend =>
      rw [SessionEvent.continues, if_pos rfl, Nat.add_comm]
      exact left_received hthread hn (Nat.zero_add _) rfl
  | receivesNothing hthread hn =>
      have hleft : (({ s with down := s.down } : ClientSession).received host []).left + 1 ≤
          s.left := left_received hthread hn (Nat.add_zero _) rfl
      rw [SessionEvent.continues, if_pos rfl, Nat.add_comm]
      exact hleft
  | receivesForeign bytes hthread hn =>
      have hown := hC.receiving _ hthread
      simp at hown
  | messageReturns hthread hstage =>
      simp only [SessionEvent.continues, left, hthread, hstage, MessageLoop.messageReturned,
        SessionThread.stepsLeft, if_true]
      omega
  | loopEnds hthread hstage =>
      simp only [SessionEvent.continues, left, hthread, hstage, SessionThread.stepsLeft, if_true]
      omega
  | disconnectReturns hthread =>
      simp only [SessionEvent.continues, left, hthread, SessionThread.stepsLeft, if_true]
      omega

/-! ## Waiting -/

theorem Stuck.thread (h : s.Stuck host peer emptyRecvWaits) (hI : s.Inv fd) :
    s.thread = .ended ∨ s.thread = .receiving .own := by
  cases hthread : s.thread with
  | ended => exact .inl rfl
  | loading =>
      have hloads := h .loads rfl
      simp [step, hthread] at hloads
  | calling n =>
      have henters := h .enters rfl
      simp [step, hthread] at henters
  | inDisconnect =>
      have hreturns := h .disconnectReturns rfl
      simp [step, hthread] at hreturns
  | outside =>
      have hnone : s.loop.stage.requested.isSome = false := by
        rw [Bool.eq_false_iff]
        exact fun hsome => (hI.control.reading.mp hsome).1 hthread
      cases hstage : s.loop.stage with
      | header | payload => simp [hstage, LoopStage.requested] at hnone
      | inMessage =>
          have hreturns := h .messageReturns rfl
          simp [step, hthread, hstage] at hreturns
      | ended =>
          have hends := h .loopEnds rfl
          simp [step, hthread, hstage] at hends
  | receiving target =>
      have hsome : s.loop.stage.requested.isSome = true :=
        hI.control.reading.mpr (by simp [hthread, SessionThread.left])
      obtain ⟨n, hn⟩ := Option.isSome_iff_exists.mp hsome
      rcases hI.control.receiving _ hthread with rfl | ⟨rfl, -, -⟩
      · exact .inr rfl
      · have hreceives := h .receives rfl
        simp [step, hthread, hn] at hreceives

/-- The destructor goes on as far as `join`. -/
theorem Stuck.owner (h : s.Stuck host peer emptyRecvWaits) :
    s.owner = .idle ∨ s.owner = .destroyed ∨ s.owner = .joining ∧ s.thread ≠ .ended := by
  cases howner : s.owner with
  | idle => exact .inl rfl
  | destroyed => exact .inr (.inl rfl)
  | shutDown =>
      have hcloses := h .closes rfl
      simp [step, howner] at hcloses
  | closed =>
      have hzeroes := h .zeroes rfl
      simp [step, howner] at hzeroes
  | joining =>
      have hjoins := h .joins rfl
      simp only [step, howner, true_and, ite_eq_right_iff, reduceCtorEq, imp_false] at hjoins
      exact .inr (.inr ⟨rfl, hjoins⟩)

/-- A `recv` that does not return waits for a server that may still send. -/
theorem Stuck.receiving (h : s.Stuck host peer emptyRecvWaits) (hI : s.Inv fd)
    (hthread : s.thread = .receiving .own) :
    ∃ n, s.loop.stage.requested = some n ∧ found emptyRecvWaits n s.down.arrived = false ∧
      s.isShut = false ∧ s.atEnd = false := by
  have hsome : s.loop.stage.requested.isSome = true :=
    hI.control.reading.mpr (by simp [hthread, SessionThread.left])
  obtain ⟨n, hn⟩ := Option.isSome_iff_exists.mp hsome
  have hreceives := h .receives rfl
  simp only [step, hthread, hn] at hreceives
  split at hreceives
  · cases hreceives
  · rename_i hfound
    simp only [ite_eq_right_iff, reduceCtorEq, imp_false, not_or, Bool.not_eq_true] at hreceives
    exact ⟨n, hn, Bool.eq_false_iff.mpr hfound, hreceives⟩

theorem Stuck.cases (h : s.Stuck host peer emptyRecvWaits) (hI : s.Inv fd) :
    s.owner = .destroyed ∨ s.owner = .idle ∧ s.thread = .ended ∨ s.Waiting emptyRecvWaits := by
  rcases h.thread hI with hthread | hthread
  · rcases h.owner with howner | howner | ⟨-, hnot⟩
    · exact .inr (.inl ⟨howner, hthread⟩)
    · exact .inl howner
    · exact absurd hthread hnot
  · obtain ⟨n, hn, hfound, hshut, hatEnd⟩ := h.receiving hI hthread
    have howner : s.owner = .idle := by
      by_contra hne
      cases hshut.symm.trans (hI.control.shut.mpr hne)
    have hwait := not_found_iff.mp hfound
    refine .inr (.inr ⟨howner, hthread, ⟨n, hn, hwait⟩, hatEnd, ?_⟩)
    intro hinFlight
    have hopen : s.closedByServer = false := by
      simpa [atEnd, hinFlight] using hatEnd
    refine ⟨hopen, ?_⟩
    cases hI.told with
    | whole hleft hreads hclosed =>
        have hstream : s.whole.arrived ++ s.whole.inFlight = s.down.arrived := by
          simp only [ClientSession.whole, hinFlight, hI.control.lost hopen, List.append_nil]
        rcases hwait with hless | ⟨hwaits, rfl, hnil⟩
        · exact .inl (hreads.of_less hn (by rwa [hstream])).2.2
        · have hstage : s.loop.stage = .payload 0 := by
            cases hstage : s.loop.stage with
            | payload k =>
                rw [hstage] at hn
                cases hn
                rfl
            | header | inMessage | ended =>
                rw [hstage] at hn
                cases hn
          exact .inr ⟨hwaits, hstage, hreads.of_nothing hstage (hstream.trans hnil)⟩
    | cut passed rest cut hleft hdry => cases (hdry.isShut hopen).symm.trans hshut
    | gone passed rest cut hleft =>
        rw [hthread] at hleft
        cases hleft

theorem stuck_of_ended (hI : s.Inv fd) (hthread : s.thread = .ended)
    (howner : s.owner = .idle ∨ s.owner = .destroyed) : s.Stuck host peer emptyRecvWaits := by
  have hstage := hI.control.finished (by simp [hthread, SessionThread.left])
  intro e he
  cases e with
  | serverSends | serverCloses | arrives | givenOut | shutsDown | receivesForeign => cases he
  | closes | zeroes | joins => rcases howner with howner | howner <;> simp [step, howner]
  | _ => simp [step, hthread]

theorem Waiting.stuck (h : s.Waiting emptyRecvWaits) (hI : s.Inv fd) :
    s.Stuck host peer emptyRecvWaits := by
  obtain ⟨n, hn, hwait⟩ := h.less
  have hfound := not_found_iff.mpr hwait
  have hshut : s.isShut = false := by
    rw [Bool.eq_false_iff]
    exact fun hshut => hI.control.shut.mp hshut h.owner
  intro e he
  cases e with
  | serverSends | serverCloses | arrives | givenOut | shutsDown | receivesForeign => cases he
  | receives => simp [step, h.thread, hn, hfound, hshut, h.notAtEnd]
  | closes | zeroes | joins => simp [step, h.owner]
  | _ => simp [step, h.thread]

theorem stuck_iff (hI : s.Inv fd) : s.Stuck host peer emptyRecvWaits ↔
    s.owner = .destroyed ∨ s.owner = .idle ∧ s.thread = .ended ∨ s.Waiting emptyRecvWaits := by
  refine ⟨fun h => h.cases hI, ?_⟩
  intro h
  rcases h with howner | ⟨howner, hthread⟩ | hwaiting
  · exact stuck_of_ended hI (hI.control.destroyed howner) (.inr howner)
  · exact stuck_of_ended hI hthread (.inl howner)
  · exact hwaiting.stuck hI

end ClientSession

/-- For every descriptor number that is not given to somebody else, and where the number 0 stands
for no socket of others. -/
theorem client_session_life_cycle (host peer : ByteOrder) (emptyRecvWaits : Bool) (fd : ℕ)
    (table : ℕ → Target) (size : UInt32) {events : List SessionEvent} {s : ClientSession}
    (hzero : fd ≠ 0 → table 0 = .invalid) (hfair : ∀ e ∈ events, e.Fair fd)
    (hrun : run (ClientSession.step host peer emptyRecvWaits) (.init host fd table size) events =
      some s) : s.LifeCycle :=
  (ClientSession.inv_run hzero hfair hrun).lifeCycle

/-- The destructor runs while the payload of the second message is still coming. -/
def cutByDestructor : List SessionEvent :=
  [.serverSends [7], .serverSends [8, 9], .arrives 10, .loads, .enters, .receives, .loads, .enters,
    .receives, .messageReturns, .loads, .enters, .receives, .loads, .enters, .shutsDown,
    .receives, .messageReturns, .closes, .loads, .zeroes, .enters, .receives, .loopEnds,
    .disconnectReturns, .joins]

theorem client_session_life_cycle_cut :
    ∃ s, run (ClientSession.step .littleEndian .bigEndian true)
        (.init .littleEndian 5 (fun _ => .invalid) 0) cutByDestructor = some s ∧
      s.owner = .destroyed ∧
      s.loop.calls = [.message [7], .message [8, 0], .disconnect] ∧ s.LifeCycle := by
  have hfair : ∀ e ∈ cutByDestructor, e.Fair 5 := by
    simp [cutByDestructor, SessionEvent.Fair]
  obtain ⟨s, hrun, howner, hcalls⟩ : ∃ s, run (ClientSession.step .littleEndian .bigEndian true)
      (.init .littleEndian 5 (fun _ => .invalid) 0) cutByDestructor = some s ∧
      s.owner = .destroyed ∧ s.loop.calls = [.message [7], .message [8, 0], .disconnect] :=
    ⟨_, rfl, rfl, by decide⟩
  exact ⟨s, hrun, howner, hcalls,
    client_session_life_cycle .littleEndian .bigEndian true 5 _ 0 (fun _ => rfl) hfair hrun⟩

-- a close by the server that loses the last byte cuts a message of a session that goes on
example : ∃ s, run (ClientSession.step .littleEndian .bigEndian true)
      (.init .littleEndian 5 (fun _ => .invalid) 0)
      [.serverSends [8, 9], .serverCloses 5, .arrives 5, .loads, .enters, .receives, .loads,
        .enters, .receives] = some s ∧
    s.owner = .idle ∧ s.loop.calls = [.message [8, 0]] :=
  ⟨_, rfl, rfl, by decide⟩

-- the number is given out again between `close` and the next `recv`: the thread waits on the socket
-- of somebody else, and the destructor for the thread
example : ∃ s, run (ClientSession.step .littleEndian .bigEndian true)
      (.init .littleEndian 5 (fun _ => .invalid) 0)
      [.loads, .shutsDown, .closes, .givenOut 5, .enters, .zeroes] = some s ∧
    s.owner = .joining ∧ s.thread = .receiving .foreign :=
  ⟨_, rfl, rfl, rfl⟩

/-- The thread and the destructor take no more steps than the messages pay for, and where they
come to a halt the session is destroyed, or the server has closed the connection, or the thread
waits for the server. -/
theorem client_session_proceeds (host peer : ByteOrder) (emptyRecvWaits : Bool) (fd : ℕ)
    (table : ℕ → Target) (size : UInt32) {events : List SessionEvent} {s : ClientSession}
    (hzero : fd ≠ 0 → table 0 = .invalid) (hfair : ∀ e ∈ events, e.Fair fd)
    (hrun : run (ClientSession.step host peer emptyRecvWaits) (.init host fd table size) events =
      some s) :
    events.countP SessionEvent.continues ≤ 8 + (events.map SessionEvent.cost).sum ∧
      (s.Stuck host peer emptyRecvWaits ↔ s.owner = .destroyed ∨
        s.owner = .idle ∧ s.thread = .ended ∨ s.Waiting emptyRecvWaits) := by
  refine ⟨?_, ClientSession.stuck_iff (ClientSession.inv_run hzero hfair hrun)⟩
  have hcount : events.countP SessionEvent.continues + s.left ≤
      (ClientSession.init host fd table size).left + (events.map SessionEvent.cost).sum :=
    countP_add_le_of_cost (P := fun _ e => e.Fair fd) SessionEvent.cost (ClientSession.Inv fd)
      ClientSession.left
      (fun _ _ _ hI he hs => ⟨ClientSession.inv_step hI he hs,
        ClientSession.left_step hI.control (ClientSession.step_taken hs)⟩)
      ⟨ClientSession.control_init host table size hzero, ClientSession.told_init host table size⟩
      (along_of_forall (fun e he _ => hfair e he) _) hrun
  have hinit : (ClientSession.init host fd table size).left = 8 := rfl
  omega

theorem client_session_proceeds_cut :
    ∃ s, run (ClientSession.step .littleEndian .bigEndian true)
        (.init .littleEndian 5 (fun _ => .invalid) 0) cutByDestructor = some s ∧
      cutByDestructor.countP SessionEvent.continues ≤
        8 + (cutByDestructor.map SessionEvent.cost).sum ∧
      s.Stuck .littleEndian .bigEndian true := by
  have hfair : ∀ e ∈ cutByDestructor, e.Fair 5 := by
    simp [cutByDestructor, SessionEvent.Fair]
  obtain ⟨s, hrun, howner⟩ : ∃ s, run (ClientSession.step .littleEndian .bigEndian true)
      (.init .littleEndian 5 (fun _ => .invalid) 0) cutByDestructor = some s ∧
      s.owner = .destroyed := ⟨_, rfl, rfl⟩
  obtain ⟨hcount, hstuck⟩ :=
    client_session_proceeds .littleEndian .bigEndian true 5 _ 0 (fun _ => rfl) hfair hrun
  exact ⟨s, hrun, hcount, hstuck.mpr (.inl howner)⟩

-- the thread has an empty message in full, and passes it on with the next byte only
example : ∃ s, run (ClientSession.step .littleEndian .bigEndian true)
      (.init .littleEndian 5 (fun _ => .invalid) 0)
      [.serverSends [], .arrives 4, .loads, .enters, .receives, .loads, .enters] = some s ∧
    s.thread = .receiving .own ∧ s.loop.calls = [] ∧ s.down.inFlight = [] ∧
    s.step .littleEndian .bigEndian true .receives = none :=
  ⟨_, rfl, rfl, rfl, rfl, rfl⟩

end CohesionIpc.Sockets
