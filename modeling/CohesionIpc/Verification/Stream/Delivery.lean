import CohesionIpc.Model.StreamServer

/-! When a stream server delivers messages. A read waits for its pipe to become ready even
when it asks for nothing, so an empty message is held back until something comes after it. -/

namespace CohesionIpc.Stream

open Transition ByteRepresentation CancellableRead.Unix SessionConnector

/-! ## A read that nobody cancels -/

/-- What `fread` has stored, or returned. -/
def got : Reader → List UInt8
  | .reading _ bytes _ | .finished (.bytesRead bytes) => bytes
  | .outside | .selecting _ | .selected _ _ _ | .unsignalled _ _
  | .finished .cancelledException => []

/-- The reader is at a read of `n` bytes from a pipe that is not cancelled and not closed. -/
def Asks (n : ℕ) : Reader → Prop
  | .outside => True
  | .selecting size => size = n
  | .selected size signal data => size = n ∧ signal = false ∧ data = true
  | .unsignalled size data => size = n ∧ data = true
  | .reading size bytes eof => size = n ∧ bytes.length ≤ n ∧ eof = false
  | .finished (.bytesRead bytes) => bytes.length = n
  | .finished .cancelledException => False

/-- `select` has found something to read, and nothing of it has been taken yet. -/
def Untouched (x : State) : Prop := x.reader.committed ∧ got x.reader = []

structure Reads (n : ℕ) (x : State) : Prop where
  closed : x.closed = false
  cancels : x.cancels = 0
  asks : Asks n x.reader
  ready : Untouched x → x.available ≠ []

variable {x x' : State} {n : ℕ}

theorem signalReady_eq (hx : Reads n x) : x.signalReady = false := by
  rw [State.signalReady, hx.cancels]
  rfl

/-- A step inside a read takes bytes from the pipe and keeps them in order. -/
theorem reads_step {l : Label} (hx : Reads n x) (h : Step x l x') (hl : insideRead l) :
    Reads n x' ∧ got x'.reader ++ x'.available = got x.reader ++ x.available := by
  have hasks := hx.asks
  cases h with
  | readCall | readReturn | cancel | arrive | close => cases hl
  | selectInterrupted h => exact ⟨hx, rfl⟩
  | select h hready =>
      rw [h] at hasks
      rw [signalReady_eq hx, Bool.false_or] at hready
      refine ⟨⟨hx.closed, hx.cancels, ⟨hasks, signalReady_eq hx, hready⟩, ?_⟩, by rw [h]; rfl⟩
      intro _ hnil
      rw [State.dataReady, hx.closed, hnil] at hready
      cases hready
  | signalled h =>
      rw [h] at hasks
      cases hasks.2.1
  | unsignalled h =>
      rw [h] at hasks
      refine ⟨⟨hx.closed, hx.cancels, ⟨hasks.1, hasks.2.2⟩, ?_⟩, by rw [h]; rfl⟩
      intro _
      apply hx.ready
      rw [Untouched, h, hasks.2.2]
      exact ⟨rfl, rfl⟩
  | dataReady h =>
      rw [h] at hasks
      refine ⟨⟨hx.closed, hx.cancels, ⟨hasks.1, Nat.zero_le _, rfl⟩, ?_⟩, by rw [h]; rfl⟩
      intro _
      apply hx.ready
      rw [Untouched, h]
      exact ⟨rfl, rfl⟩
  | dataNotReady h =>
      rw [h] at hasks
      cases hasks.2
  | @readSome size bytes k h hk =>
      rw [h] at hasks
      refine ⟨⟨hx.closed, hx.cancels, ⟨hasks.1, ?_, rfl⟩, ?_⟩, ?_⟩
      · rw [List.length_append, List.length_take_of_le hk.2.1, ← hasks.1]
        exact hk.2.2
      · rintro ⟨-, hgot⟩
        have hlen := congrArg List.length hgot
        rw [got, List.length_append, List.length_take_of_le hk.2.1, List.length_nil] at hlen
        omega
      · rw [h, got, got, List.append_assoc, List.take_append_drop]
  | readEof h heof =>
      rw [hx.closed] at heof
      cases heof.2.1
  | @freadReturn size bytes eof h hend =>
      rw [h] at hasks
      rw [hasks.2.2] at hend
      refine ⟨⟨hx.closed, hx.cancels, ?_, ?_⟩, by rw [h]; rfl⟩
      · exact (hend.resolve_right (by decide)).trans hasks.1
      · rintro ⟨-, hgot⟩
        apply hx.ready
        rw [Untouched, h]
        exact ⟨rfl, hgot⟩

theorem reads_arrive {bytes : List UInt8} (hx : Reads n x) (h : Step x (.arrive bytes) x') :
    Reads n x' ∧ got x'.reader ++ x'.available = got x.reader ++ x.available ++ bytes := by
  cases h with
  | arrive _ hopen =>
      refine ⟨⟨hx.closed, hx.cancels, hx.asks, ?_⟩, (List.append_assoc _ _ _).symm⟩
      intro huntouched hnil
      exact hx.ready huntouched (List.append_eq_nil_iff.mp hnil).1

theorem reads_outside (h : Reads n x) (m : ℕ) (y : State) (hy : y.reader = .outside)
    (hclosed : y.closed = x.closed) (hcancels : y.cancels = x.cancels) : Reads m y := by
  refine ⟨hclosed.trans h.closed, hcancels.trans h.cancels, by rw [hy]; trivial, ?_⟩
  rintro ⟨hcommitted, -⟩
  rw [hy] at hcommitted
  cases hcommitted

/-- The call of `read`. -/
theorem reads_start {m : ℕ} (hx : Reads n x) (h : Step x (.readCall m) x') :
    Reads m x' ∧ x.reader = .outside ∧ got x'.reader = [] ∧ x'.available = x.available := by
  cases h with
  | readCall _ houtside =>
      refine ⟨⟨hx.closed, hx.cancels, rfl, ?_⟩, houtside, rfl, rfl⟩
      rintro ⟨hcommitted, -⟩
      cases hcommitted

/-! ## The worker between the messages -/

/-- The frames of messages as they come through the pipe. -/
def frames (host : ByteOrder) (ms : List (List UInt8)) : List UInt8 :=
  ms.flatMap (framing host).frame

/-- Where the worker is in the stream when it has delivered `ms`. -/
inductive Phase (host : ByteOrder) (ms : List (List UInt8)) (s : SessionConnector) : Prop
  | creating (hw : s.worker = .creating) (hreader : s.input.reader = .outside) (hms : ms = [])
      (hsent : s.sent = s.input.available)
  | header (hw : s.worker = .header)
      (hsent : s.sent = frames host ms ++ (got s.input.reader ++ s.input.available))
  | payload {h : List UInt8} (hw : s.worker = .payload (value host h).toNat) (hh : h.length = 4)
      (hbuffer : s.buffer.length = (value host h).toNat)
      (hsent : s.sent = frames host ms ++ (h ++ (got s.input.reader ++ s.input.available)))
  | inMessage (hw : s.worker = .inMessage) (hreader : s.input.reader = .outside)
      (hsent : s.sent = frames host ms ++ s.input.available)

/-- The number of bytes that the worker asks for, if it does. -/
def Worker.asks (w : Worker) : ℕ := w.requested.getD 0

/-- The worker has delivered `ms`, and what it has not delivered has not been lost. An empty
message has been delivered only when something had come after it. -/
structure Serving (host : ByteOrder) (ms : List (List UInt8)) (s : SessionConnector) : Prop where
  log : s.log = ms.map .message
  lengths : ∀ m ∈ ms, m.length < 2 ^ 32
  size : s.size.length = 4
  reads : Reads s.worker.asks s.input
  phase : Phase host ms s
  last : ms.getLast? = some [] → (frames host ms).length < s.sent.length

/-- Bytes arrive, or the worker goes on: it is not stopped, and nothing in it throws. -/
def Event.quiet : Event → Bool
  | .factoryReturns | .readStarts | .reads _ | .readReturns | .messageReturns
  | .disconnectReturns | .arrive _ => true
  | .factoryThrows | .selectFails | .resizeThrows | .messageThrows | .close | .destroy
  | .joins => false

theorem serving_init (host : ByteOrder) (size : UInt32) : Serving host [] (init host size) := by
  refine ⟨rfl, ?_, length_bytes host size, ?_, .creating rfl rfl rfl rfl, ?_⟩
  · exact fun m hm => absurd hm List.not_mem_nil
  · refine ⟨rfl, rfl, trivial, ?_⟩
    rintro ⟨hcommitted, -⟩
    cases hcommitted
  · intro h
    cases h

variable {host : ByteOrder} {ms : List (List UInt8)} {s t : SessionConnector}

theorem frames_concat (m : List UInt8) :
    frames host (ms ++ [m]) = frames host ms ++ (framing host).frame m := by
  simp [frames]

/-- A header that announces the length of what follows it is the header of its frame. -/
theorem frame_of_header {h payload : List UInt8} (hh : h.length = 4)
    (hlen : payload.length = (value host h).toNat) :
    (framing host).frame payload = h ++ payload := by
  rw [framing_frame, hlen, UInt32.ofNat_toNat, bytes_value host hh]

/-- Another message is delivered. -/
theorem Serving.deliver (hs : Serving host ms s) {h bytes : List UInt8}
    (hw : s.worker = .payload (value host h).toNat) (hh : h.length = 4)
    (hbuffer : s.buffer.length = (value host h).toNat)
    (hread : s.input.reader = .finished (.bytesRead bytes))
    (hsent : s.sent = frames host ms ++ (h ++ (got s.input.reader ++ s.input.available))) :
    Serving host (ms ++ [bytes]) { s with
      input := { s.input with reader := .outside }
      buffer := Buffer.overwrite s.buffer bytes
      worker := .inMessage
      log := s.log ++ [.message (Buffer.overwrite s.buffer bytes)] } := by
  have hasks := hs.reads.asks
  rw [hread, hw] at hasks
  change bytes.length = (value host h).toNat at hasks
  have hover : Buffer.overwrite s.buffer bytes = bytes :=
    Buffer.overwrite_of_length_eq (hasks.trans hbuffer.symm)
  have hframe : (framing host).frame bytes = h ++ bytes := frame_of_header hh hasks
  have hlt : bytes.length < 2 ^ 32 := by
    rw [hasks]
    exact toNat_value_lt host h
  have hsent' : s.sent = frames host (ms ++ [bytes]) ++ s.input.available := by
    rw [hsent, hread, frames_concat, hframe]
    simp [got]
  refine ⟨?_, ?_, hs.size, ?_, .inMessage rfl rfl hsent', ?_⟩
  · rw [hover, hs.log, List.map_append]
    rfl
  · intro m hm
    rcases List.mem_append.mp hm with hm | hm
    · exact hs.lengths m hm
    · rw [List.mem_singleton.mp hm]
      exact hlt
  · exact reads_outside hs.reads _ _ rfl rfl rfl
  · intro hlast
    rw [List.getLast?_concat, Option.some.injEq] at hlast
    -- an empty payload has been read when `select` had found something behind its header
    have hne := hs.reads.ready ⟨by rw [hread]; rfl, by rw [hread]; exact hlast⟩
    have hpos := List.length_pos_iff.mpr hne
    change _ < s.sent.length
    rw [hsent', List.length_append]
    omega

theorem asks_eq {w : Worker} (h : w.requested = some n) : w.asks = n := by
  rw [Worker.asks, h, Option.getD_some]

/-- The worker is at a call of `read` with what it has read of a frame. -/
theorem Phase.of_reading (hphase : Phase host ms s) (hreading : s.input.reader ≠ .outside)
    (hworker : t.worker = s.worker) (hbuffer : t.buffer = s.buffer) (hsent : t.sent = s.sent)
    (hinput : got t.input.reader ++ t.input.available =
      got s.input.reader ++ s.input.available) : Phase host ms t := by
  cases hphase with
  | creating _ hreader | inMessage _ hreader => exact absurd hreader hreading
  | header hw hsent' =>
      refine .header (hworker.trans hw) ?_
      rw [hsent, hsent', hinput]
  | payload hw hh hlen hsent' =>
      refine .payload (hworker.trans hw) hh (by rwa [hbuffer]) ?_
      rw [hsent, hsent', hinput]

theorem Phase.of_creating (hphase : Phase host ms s) (hw : s.worker = .creating) :
    s.input.reader = .outside ∧ ms = [] ∧ s.sent = s.input.available := by
  cases hphase with
  | creating _ hreader hms hsent => exact ⟨hreader, hms, hsent⟩
  | header hw' | payload hw' | inMessage hw' =>
      rw [hw] at hw'
      cases hw'

theorem Phase.of_header (hphase : Phase host ms s) (hw : s.worker = .header) :
    s.sent = frames host ms ++ (got s.input.reader ++ s.input.available) := by
  cases hphase with
  | header _ hsent => exact hsent
  | creating hw' | payload hw' | inMessage hw' =>
      rw [hw] at hw'
      cases hw'

theorem Phase.of_inMessage (hphase : Phase host ms s) (hw : s.worker = .inMessage) :
    s.input.reader = .outside ∧ s.sent = frames host ms ++ s.input.available := by
  cases hphase with
  | inMessage _ hreader hsent => exact ⟨hreader, hsent⟩
  | creating hw' | header hw' | payload hw' =>
      rw [hw] at hw'
      cases hw'

theorem Phase.ne_inDisconnect (hphase : Phase host ms s) : s.worker ≠ .inDisconnect := by
  intro hw
  cases hphase with
  | creating hw' | header hw' | payload hw' | inMessage hw' =>
      rw [hw] at hw'
      cases hw'

/-- Only a worker that has asked for something is at a read. -/
theorem Phase.requested_ne_none (hphase : Phase host ms s)
    (hreading : s.input.reader ≠ .outside) : s.worker.requested ≠ none := by
  cases hphase with
  | creating _ hreader | inMessage _ hreader => exact absurd hreader hreading
  | header hw | payload hw =>
      rw [hw]
      exact Option.some_ne_none _

theorem serving_step {e : Event} (hs : Serving host ms s) (he : e.quiet)
    (h : Taken host s e t) : ∃ ms', Serving host ms' t := by
  have hphase := hs.phase
  cases h with
  | factoryThrows | selectFails | resizeThrows | messageThrows | close | destroy | joins => cases he
  | factoryReturns hw =>
      obtain ⟨hreader, hms, hsent⟩ := hphase.of_creating hw
      refine ⟨ms, hs.log, hs.lengths, hs.size, ?_, .header rfl ?_, hs.last⟩
      · exact reads_outside hs.reads _ _ hreader rfl rfl
      · rw [hreader, hms]
        exact hsent
  | readStarts hn h =>
      obtain ⟨hreads, houtside, hgot, havailable⟩ := reads_start hs.reads h
      refine ⟨ms, hs.log, hs.lengths, hs.size, ?_, ?_, hs.last⟩
      · change Reads s.worker.asks _
        rwa [asks_eq hn]
      · cases hphase with
        | creating hw | inMessage hw =>
            rw [hw] at hn
            cases hn
        | header hw hsent =>
            refine .header hw ?_
            rw [hgot, havailable, hsent, houtside]
            rfl
        | payload hw hh hlen hsent =>
            refine .payload hw hh hlen ?_
            rw [hgot, havailable, hsent, houtside]
            rfl
  | reads hl h =>
      obtain ⟨hreads, hinput⟩ := reads_step hs.reads h hl
      refine ⟨ms, hs.log, hs.lengths, hs.size, hreads, ?_, hs.last⟩
      exact hphase.of_reading (reader_ne_outside h hl) rfl rfl rfl hinput
  | cancelled h =>
      have hasks := hs.reads.asks
      rw [h] at hasks
      exact hasks.elim
  | @headerRead bytes h hw hlen =>
      have hover : Buffer.overwrite s.size bytes = bytes :=
        Buffer.overwrite_of_length_eq (hlen.trans hs.size.symm)
      have hsent := hphase.of_header hw
      rw [h] at hsent
      refine ⟨ms, hs.log, hs.lengths, ?_, ?_, ?_, hs.last⟩
      · rw [hover]
        exact hlen
      · exact reads_outside hs.reads _ _ rfl rfl rfl
      · rw [hover]
        exact .payload rfl hlen (Buffer.length_resize _ _ _) hsent
  | headerCut h hw hlen =>
      have hasks := hs.reads.asks
      rw [h, hw] at hasks
      exact absurd hasks hlen
  | payloadRead h hw =>
      cases hphase with
      | creating hw' | header hw' | inMessage hw' =>
          rw [hw] at hw'
          cases hw'
      | payload hw' hh hlen hsent => exact ⟨_, hs.deliver hw' hh hlen h hsent⟩
  | stray h hw => exact absurd hw (hphase.requested_ne_none (by rw [h]; simp))
  | messageReturns hw =>
      obtain ⟨hreader, hsent⟩ := hphase.of_inMessage hw
      refine ⟨ms, hs.log, hs.lengths, hs.size, ?_, .header rfl ?_, hs.last⟩
      · exact reads_outside hs.reads _ _ hreader rfl rfl
      · rw [hreader]
        exact hsent
  | disconnectReturns hw => exact absurd hw hphase.ne_inDisconnect
  | @arrive bytes input h =>
      obtain ⟨hreads, -⟩ := reads_arrive hs.reads h
      refine ⟨ms, hs.log, hs.lengths, hs.size, hreads, ?_, ?_⟩
      · cases h with
        | arrive _ hopen =>
            cases hphase with
            | creating hw hreader hms hsent =>
                exact .creating hw hreader hms (congrArg (· ++ bytes) hsent)
            | header hw hsent => exact .header hw (by simp [hsent])
            | payload hw hh hlen hsent => exact .payload hw hh hlen (by simp [hsent])
            | inMessage hw hreader hsent => exact .inMessage hw hreader (by simp [hsent])
      · intro hlast
        rw [List.length_append]
        exact Nat.lt_add_right _ (hs.last hlast)

theorem serving_run {host : ByteOrder} {ms : List (List UInt8)} {s t : SessionConnector}
    {events : List Event} (hs : Serving host ms s) (hevents : ∀ e ∈ events, e.quiet)
    (hrun : run (SessionConnector.step host) s events = some t) : ∃ ms', Serving host ms' t := by
  have hquiet : Along (SessionConnector.step host) (fun _ e => e.quiet) s events :=
    along_of_forall (fun e he _ => hevents e he) s
  refine run_invariant (fun s => ∃ ms, Serving host ms s) ?_ ⟨ms, hs⟩ hquiet hrun
  rintro s e t ⟨ms, hs⟩ he ht
  exact serving_step hs he (step_taken ht)

/-! ## Waiting -/

/-- The worker is blocked in `select`: nothing has come and nobody has cancelled. -/
def Waits (s : SessionConnector) : Prop :=
  (∃ n, s.input.reader = .selecting n) ∧ s.input.available = [] ∧ s.input.closed = false ∧
    s.input.cancels = 0

/-- Whole frames can be cut off a sequence of frames in one way only. -/
theorem frames_cancel {all : List (List UInt8)} {rest : List UInt8}
    (hall : ∀ m ∈ all, m.length < 2 ^ 32) (hms : ∀ m ∈ ms, m.length < 2 ^ 32)
    (h : frames host all = frames host ms ++ rest) :
    all = ms ++ (framing host).frames rest ∧ (framing host).residue rest = [] := by
  have hframes := (framing host).frames_flatMap_append hall []
  have hresidue := (framing host).residue_flatMap_append hall []
  change (framing host).frames (frames host all ++ []) = _ at hframes
  change (framing host).residue (frames host all ++ []) = _ at hresidue
  rw [h, List.append_nil] at hframes hresidue
  rw [(framing host).frames_nil, List.append_nil] at hframes
  constructor
  · rw [← hframes]
    exact (framing host).frames_flatMap_append hms rest
  · rw [(framing host).residue_of_none (framing host).next?_nil] at hresidue
    rw [← hresidue]
    exact ((framing host).residue_flatMap_append hms rest).symm

/-- What has been read of a frame is not a sequence of whole frames. -/
theorem residue_ne_nil {part : List UInt8} (hpart : part ≠ [])
    (hshort : part.length < 4 ∨ (part.drop 4).length < (value host (part.take 4)).toNat) :
    (framing host).residue part ≠ [] := by
  have hnone : (framing host).next? part = none := (framing host).next?_eq_none.mpr hshort
  rwa [(framing host).residue_of_none hnone]

theorem Serving.waiting {all : List (List UInt8)} (hs : Serving host ms s)
    (hall : ∀ m ∈ all, m.length < 2 ^ 32) (hsent : s.sent = frames host all) (hw : Waits s) :
    (ms = all ∧ all.getLast? ≠ some []) ∨ all = ms ++ [[]] := by
  obtain ⟨⟨n, hreader⟩, havailable, -, -⟩ := hw
  have hphase := hs.phase
  cases hphase with
  | creating _ houtside | inMessage _ houtside =>
      rw [hreader] at houtside
      cases houtside
  | header hw' hsent' =>
      left
      rw [hreader, havailable] at hsent'
      have heq := (frames_cancel hall hs.lengths (hsent.symm.trans hsent')).1
      change all = ms ++ (framing host).frames [] at heq
      rw [LengthPrefix.frames_nil, List.append_nil] at heq
      refine ⟨heq.symm, ?_⟩
      intro hlast
      have hlater := hs.last (heq ▸ hlast)
      rw [hsent, heq] at hlater
      exact lt_irrefl _ hlater
  | @payload h hw' hh hbuffer hsent' =>
      right
      rw [hreader, havailable] at hsent'
      obtain ⟨heq, hresidue⟩ := frames_cancel hall hs.lengths (hsent.symm.trans hsent')
      change all = ms ++ (framing host).frames (h ++ []) at heq
      change (framing host).residue (h ++ []) = [] at hresidue
      rw [List.append_nil] at heq hresidue
      have hne : h ≠ [] := by
        rw [← List.length_pos_iff, hh]
        decide
      have hzero : (value host h).toNat = 0 := by
        by_contra hpos
        refine residue_ne_nil hne (.inr ?_) hresidue
        rw [List.drop_of_length_le hh.le, List.take_of_length_le hh.le]
        exact Nat.pos_of_ne_zero hpos
      have hempty : ([] : List UInt8).length = (value host h).toNat := hzero.symm
      have hframe : h = (framing host).frame [] ++ [] := by
        rw [frame_of_header hh hempty, List.append_nil, List.append_nil]
      have hbound : ([] : List UInt8).length < (framing host).bound := by
        change 0 < 2 ^ 32
        decide
      rw [heq, hframe, (framing host).frames_frame_append hbound, LengthPrefix.frames_nil]

/-! ## The way there -/

/-- The steps of the worker. -/
def Event.ofWorker (e : Event) : Bool :=
  match e with
  | .arrive _ => false
  | e => e.quiet

/-- A `select` that a signal has interrupted is made again. -/
def Event.goesOn (e : Event) : Bool := decide (e ≠ .reads .selectInterrupted)

/-- The steps that are left of a read, the calls of `read(2)` in `fread` apart. -/
def left : Reader → ℕ
  | .outside => 6
  | .selecting _ => 5
  | .selected _ _ _ => 4
  | .unsignalled _ _ => 3
  | .reading _ _ _ => 2
  | .finished _ => 1

def Worker.place : Worker → ℕ
  | .header => 0
  | .creating | .inMessage => 1
  | .payload _ => 7
  | .inDisconnect | .exited _ => 0

/-- What is left to the worker: 32 is more than the steps between two messages. -/
def work (s : SessionConnector) : ℕ :=
  32 * (got s.input.reader ++ s.input.available).length + s.input.available.length +
    (s.worker.place + left s.input.reader)

theorem reads_shorter {l : Label} (hx : Reads n x) (h : Step x l x') (hl : insideRead l)
    (hgoes : l ≠ .selectInterrupted) :
    x'.available.length + left x'.reader < x.available.length + left x.reader := by
  have hasks := hx.asks
  cases h with
  | readCall | readReturn | cancel | arrive | close => cases hl
  | selectInterrupted => exact absurd rfl hgoes
  | select h => simp [h, left]
  | signalled h | unsignalled h | dataReady h | freadReturn h => simp [h, left]
  | dataNotReady h =>
      rw [h] at hasks
      cases hasks.2
  | readSome k h hk =>
      simp only [h, left, List.length_drop]
      omega
  | readEof h heof =>
      rw [hx.closed] at heof
      cases heof.2.1

/-- Every step of the worker shortens what is left to it, an interrupted `select` apart. -/
theorem work_step {e : Event} (hs : Serving host ms s) (he : e.ofWorker) (hgoes : e.goesOn)
    (h : Taken host s e t) : work t < work s := by
  have hphase := hs.phase
  cases h with
  | factoryThrows | selectFails | resizeThrows | messageThrows | arrive | close | destroy
  | joins => cases he
  | factoryReturns hw => simp [work, hw, Worker.place]
  | readStarts hn h =>
      obtain ⟨-, houtside, hgot, havailable⟩ := reads_start hs.reads h
      simp only [work, hgot, havailable, houtside]
      cases h with
      | readCall => simp [left, got]
  | @reads l input hl h =>
      obtain ⟨-, hinput⟩ := reads_step hs.reads h hl
      have hne : l ≠ .selectInterrupted := by
        rintro rfl
        exact absurd rfl (of_decide_eq_true hgoes)
      have hshorter := reads_shorter hs.reads h hl hne
      simp only [work, hinput]
      omega
  | cancelled h =>
      have hasks := hs.reads.asks
      rw [h] at hasks
      exact hasks.elim
  | headerRead h hw hlen =>
      simp only [work, h, hw, got, left, Worker.place, List.length_append, hlen, List.length_nil]
      omega
  | headerCut h hw hlen =>
      have hasks := hs.reads.asks
      rw [h, hw] at hasks
      exact absurd hasks hlen
  | payloadRead h hw =>
      simp only [work, h, hw, got, left, Worker.place, List.length_append, List.length_nil]
      omega
  | stray h hw => exact absurd hw (hphase.requested_ne_none (by rw [h]; simp))
  | messageReturns hw => simp [work, hw, Worker.place]
  | disconnectReturns hw => exact absurd hw hphase.ne_inDisconnect

/-- A read that has begun goes on where there is something for `select` and for `fread`. -/
theorem read_goes_on (hx : Reads n x) (hbegun : x.reader ≠ .outside)
    (hrunning : ∀ outcome, x.reader ≠ .finished outcome)
    (hselect : ∀ size, x.reader = .selecting size → x.available ≠ [])
    (hfread : ∀ size bytes eof, x.reader = .reading size bytes eof → bytes.length < n →
      x.available ≠ []) :
    ∃ l, insideRead l ∧ l ≠ .selectInterrupted ∧ (CancellableRead.Unix.step x l).isSome := by
  have hasks := hx.asks
  cases hreader : x.reader with
  | outside => exact absurd hreader hbegun
  | finished outcome => exact absurd hreader (hrunning outcome)
  | selecting size =>
      have hready : (x.signalReady || x.dataReady) = true := by
        rw [State.dataReady, List.isEmpty_eq_false_iff.mpr (hselect size hreader)]
        simp
      refine ⟨.select, rfl, by decide, ?_⟩
      simp only [CancellableRead.Unix.step, hreader]
      rw [if_pos hready]
      rfl
  | selected size signal data =>
      rw [hreader] at hasks
      obtain ⟨-, rfl, rfl⟩ := hasks
      refine ⟨.testSignal, rfl, by decide, ?_⟩
      simp only [CancellableRead.Unix.step, hreader]
      rfl
  | unsignalled size data =>
      rw [hreader] at hasks
      obtain ⟨-, rfl⟩ := hasks
      refine ⟨.testData, rfl, by decide, ?_⟩
      simp only [CancellableRead.Unix.step, hreader]
      rfl
  | reading size bytes eof =>
      rw [hreader] at hasks
      obtain ⟨rfl, hle, rfl⟩ := hasks
      by_cases hfull : bytes.length = size
      · refine ⟨.freadReturn, rfl, by decide, ?_⟩
        simp only [CancellableRead.Unix.step, hreader]
        rw [if_pos (.inl hfull)]
        rfl
      · have hlt : bytes.length < size := lt_of_le_of_ne hle hfull
        have hpos := List.length_pos_iff.mpr (hfread size bytes false hreader hlt)
        refine ⟨.readSome 1, rfl, by decide, ?_⟩
        simp only [CancellableRead.Unix.step, hreader]
        rw [if_pos ⟨Nat.one_pos, hpos, hlt⟩]
        rfl

/-- When whole frames have come, a frame that has been begun is in the pipe. -/
theorem Serving.available_ne_nil {all : List (List UInt8)} (hs : Serving host ms s)
    (hall : ∀ m ∈ all, m.length < 2 ^ 32) (hsent : s.sent = frames host all) {size : ℕ}
    {bytes : List UInt8} {eof : Bool} (hreader : s.input.reader = .reading size bytes eof)
    (hshort : bytes.length < s.worker.asks) : s.input.available ≠ [] := by
  intro hnil
  have hready := hs.reads.ready
  rw [Untouched, hreader, hnil] at hready
  have hgot : bytes ≠ [] := fun hgot => hready ⟨rfl, hgot⟩ rfl
  have hphase := hs.phase
  cases hphase with
  | creating _ houtside | inMessage _ houtside =>
      rw [hreader] at houtside
      cases houtside
  | header hw hsent' =>
      rw [hreader, hnil, got, List.append_nil] at hsent'
      rw [hw] at hshort
      have hresidue := (frames_cancel hall hs.lengths (hsent.symm.trans hsent')).2
      exact residue_ne_nil hgot (.inl hshort) hresidue
  | @payload h hw hh hbuffer hsent' =>
      rw [hreader, hnil, got, List.append_nil] at hsent'
      rw [hw] at hshort
      have hresidue := (frames_cancel hall hs.lengths (hsent.symm.trans hsent')).2
      refine residue_ne_nil (List.append_ne_nil_of_right_ne_nil h hgot) (.inr ?_) hresidue
      rw [List.drop_left' hh, List.take_left' hh]
      exact hshort

/-- The worker that does not wait has a step to take. -/
theorem Serving.goes_on {all : List (List UInt8)} (hs : Serving host ms s)
    (hall : ∀ m ∈ all, m.length < 2 ^ 32) (hsent : s.sent = frames host all) (hw : ¬ Waits s) :
    ∃ e, e.ofWorker ∧ e.goesOn ∧ (s.step host e).isSome := by
  have hphase := hs.phase
  by_cases hfinished : ∃ outcome, s.input.reader = .finished outcome
  · rcases hfinished with ⟨outcome, hreader⟩
    refine ⟨.readReturns, rfl, by decide, ?_⟩
    simp only [SessionConnector.step, hreader]
    rfl
  by_cases houtside : s.input.reader = .outside
  · cases hphase with
    | creating hw =>
        refine ⟨.factoryReturns, rfl, by decide, ?_⟩
        rw [SessionConnector.step, if_pos hw]
        rfl
    | inMessage hw =>
        refine ⟨.messageReturns, rfl, by decide, ?_⟩
        rw [SessionConnector.step, if_pos hw]
        rfl
    | header hw | payload hw =>
        refine ⟨.readStarts, rfl, by decide, ?_⟩
        simp only [SessionConnector.step, hw, Worker.requested, CancellableRead.Unix.step, houtside]
        rfl
  · have hselect : ∀ size, s.input.reader = .selecting size → s.input.available ≠ [] := by
      intro size hreader hnil
      exact hw ⟨⟨size, hreader⟩, hnil, hs.reads.closed, hs.reads.cancels⟩
    obtain ⟨l, hl, hne, hstep⟩ := read_goes_on hs.reads houtside (not_exists.mp hfinished) hselect
      fun size bytes eof => hs.available_ne_nil hall hsent
    refine ⟨.reads l, ?_, ?_, ?_⟩
    · rfl
    · exact decide_eq_true (fun h => hne (Event.reads.inj h))
    · rw [SessionConnector.step, if_pos hl, Option.isSome_map]
      exact hstep

theorem work_interrupted {e : Event} (hgoes : ¬ e.goesOn) (h : Taken host s e t) :
    work t = work s := by
  have he : e = .reads .selectInterrupted := by
    by_contra hne
    exact hgoes (decide_eq_true hne)
  subst he
  cases h with
  | reads hl h =>
      cases h
      rfl

theorem sent_step {e : Event} (he : e.ofWorker) (h : Taken host s e t) : t.sent = s.sent := by
  cases h with
  | arrive => cases he
  | factoryReturns | factoryThrows | readStarts | reads | selectFails | cancelled | headerRead
  | headerCut | payloadRead | stray | resizeThrows | messageReturns | messageThrows
  | disconnectReturns | close | destroy | joins => rfl

theorem quiet_of_ofWorker {e : Event} (he : e.ofWorker) : e.quiet := by
  cases e <;> first | exact he | rfl

/-- The worker serves the session, and the frames of `all` have come. -/
def Came (host : ByteOrder) (all : List (List UInt8)) (s : SessionConnector) : Prop :=
  (∃ ms, Serving host ms s) ∧ s.sent = frames host all

theorem came_step {all : List (List UInt8)} {e : Event} (hs : Came host all s) (he : e.ofWorker)
    (h : Taken host s e t) : Came host all t := by
  obtain ⟨⟨ms, hserving⟩, hsent⟩ := hs
  exact ⟨serving_step hserving (quiet_of_ofWorker he) h, (sent_step he h).trans hsent⟩

/-- The worker goes on by itself until it waits. -/
theorem reaches_waits {all : List (List UInt8)} (hall : ∀ m ∈ all, m.length < 2 ^ 32)
    (hs : Came host all s) : ∃ events t, (∀ e ∈ events, e.ofWorker) ∧
      run (SessionConnector.step host) s events = some t ∧ Came host all t ∧ Waits t := by
  refine exists_run_of_measure (L := fun e : Event => e.ofWorker) work ?_ hs
  intro s hs hw
  obtain ⟨⟨ms, hserving⟩, hsent⟩ := hs
  obtain ⟨e, he, hgoes, hstep⟩ := hserving.goes_on hall hsent hw
  obtain ⟨t, ht⟩ := Option.isSome_iff_exists.mp hstep
  have htaken := step_taken ht
  exact ⟨e, t, he, ht, came_step ⟨⟨ms, hserving⟩, hsent⟩ he htaken,
    work_step hserving he hgoes htaken⟩

/-- It gets there: interruptions apart, it takes no more steps than there is work. -/
theorem goesOn_le_work {all : List (List UInt8)} {events : List Event} (hs : Came host all s)
    (hevents : ∀ e ∈ events, e.ofWorker)
    (hrun : run (SessionConnector.step host) s events = some t) :
    events.countP (·.goesOn) ≤ work s := by
  have hofWorker : Along (SessionConnector.step host) (fun _ e => e.ofWorker) s events :=
    along_of_forall (fun e he _ => hevents e he) s
  have hle : events.countP (·.goesOn) + work t ≤ work s := by
    refine countP_add_le_of_measure (Came host all) work ?_ hs hofWorker hrun
    intro s e t hs he ht
    refine ⟨came_step hs he (step_taken ht), ?_⟩
    obtain ⟨⟨ms, hserving⟩, -⟩ := hs
    by_cases hgoes : e.goesOn
    · have hlt := work_step hserving he hgoes (step_taken ht)
      rw [if_pos hgoes]
      omega
    · rw [if_neg hgoes, Nat.zero_add, work_interrupted hgoes (step_taken ht)]
  exact (Nat.le_add_right _ _).trans hle

/-! ## When a message comes through -/

/-- Whenever exactly the frames of `all` have come, the worker reaches the place where it waits
in a bounded number of steps, and there it has delivered them all. -/
structure Prompt (host : ByteOrder) (size : UInt32) (all : List (List UInt8)) : Prop where
  delivered : ∀ events s, (∀ e ∈ events, e.quiet) →
    run (SessionConnector.step host) (init host size) events = some s →
    s.sent = frames host all → Waits s → s.log = all.map .message
  reaches : ∀ events s, (∀ e ∈ events, e.quiet) →
    run (SessionConnector.step host) (init host size) events = some s →
    s.sent = frames host all → ∃ own t, (∀ e ∈ own, e.ofWorker) ∧
      run (SessionConnector.step host) s own = some t ∧ Waits t
  bounded : ∀ events s, (∀ e ∈ events, e.quiet) →
    run (SessionConnector.step host) (init host size) events = some s →
    s.sent = frames host all → ∃ bound, ∀ own t, (∀ e ∈ own, e.ofWorker) →
      run (SessionConnector.step host) s own = some t → own.countP (·.goesOn) ≤ bound

theorem came_of_run {size : UInt32} {all : List (List UInt8)} {events : List Event}
    (hevents : ∀ e ∈ events, e.quiet)
    (hrun : run (SessionConnector.step host) (init host size) events = some s)
    (hsent : s.sent = frames host all) : Came host all s :=
  ⟨serving_run (serving_init host size) hevents hrun, hsent⟩

theorem log_of_waits {all : List (List UInt8)} (hall : ∀ m ∈ all, m.length < 2 ^ 32)
    (hs : Came host all s) (hw : Waits s) :
    s.log = all.map .message ↔ all.getLast? ≠ some [] := by
  obtain ⟨⟨ms, hserving⟩, hsent⟩ := hs
  rw [hserving.log]
  rcases hserving.waiting hall hsent hw with ⟨rfl, hlast⟩ | rfl
  · exact iff_of_true rfl hlast
  · refine iff_of_false ?_ ?_
    · intro h
      have hlen := congrArg List.length h
      simp at hlen
    · simp

/-- The bytes of any stream can come before the worker has taken a step. -/
theorem came_at_once (host : ByteOrder) (size : UInt32) (all : List (List UInt8)) :
    ∃ s, run (SessionConnector.step host) (init host size) [.arrive (frames host all)] = some s ∧
      s.sent = frames host all :=
  ⟨_, rfl, rfl⟩

/-- Messages come through when their frames have come, unless the last of them is empty: that
one waits for a byte beyond its frame. -/
theorem prompt_iff (host : ByteOrder) (size : UInt32) (all : List (List UInt8))
    (hall : ∀ m ∈ all, m.length < 2 ^ 32) : Prompt host size all ↔ all.getLast? ≠ some [] := by
  constructor
  · intro hprompt
    obtain ⟨s, hrun, hsent⟩ := came_at_once host size all
    have hquiet : ∀ e ∈ [Event.arrive (frames host all)], e.quiet := by
      intro e he
      rw [List.mem_singleton.mp he]
      rfl
    obtain ⟨own, t, hown, hrunt, hcame, hw⟩ := reaches_waits hall (came_of_run hquiet hrun hsent)
    apply (log_of_waits hall hcame hw).mp
    refine hprompt.delivered _ t ?_ (run_append_eq_some.mpr ⟨s, hrun, hrunt⟩) hcame.2 hw
    intro e he
    rcases List.mem_append.mp he with he | he
    · exact hquiet e he
    · exact quiet_of_ofWorker (hown e he)
  · intro hlast
    refine ⟨?_, ?_, ?_⟩
    · intro events s hevents hrun hsent hw
      exact (log_of_waits hall (came_of_run hevents hrun hsent) hw).mpr hlast
    · intro events s hevents hrun hsent
      obtain ⟨own, t, hown, hrunt, -, hw⟩ := reaches_waits hall (came_of_run hevents hrun hsent)
      exact ⟨own, t, hown, hrunt, hw⟩
    · intro events s hevents hrun hsent
      refine ⟨work s, ?_⟩
      exact fun own t hown => goesOn_le_work (came_of_run hevents hrun hsent) hown

theorem prompt_iff_seven :
    (∀ m ∈ ([[7]] : List (List UInt8)), m.length < 2 ^ 32) ∧
      (Prompt .littleEndian 0 [[7]] ↔ ([[7]] : List (List UInt8)).getLast? ≠ some []) := by
  have hlength : ∀ m ∈ ([[7]] : List (List UInt8)), m.length < 2 ^ 32 := by
    intro m hm
    rw [List.mem_singleton.mp hm]
    decide
  exact ⟨hlength, prompt_iff .littleEndian 0 [[7]] hlength⟩

/-- With the frames of `[7]` and of the empty message in the pipe, the worker delivers `[7]`, reads
the length 0, and waits for the payload that is already complete. -/
theorem not_prompt_empty : ¬ Prompt .littleEndian 0 [[7], []] := by
  intro h
  have hlog := h.delivered (.arrive (frames .littleEndian [[7], []]) :: .factoryReturns ::
    (readOf 4 ++ readOf 1 ++ [.messageReturns] ++ readOf 4 ++ [.readStarts])) _ (by decide) rfl rfl
    ⟨⟨0, rfl⟩, rfl, rfl, rfl⟩
  cases hlog

end CohesionIpc.Stream
