import CohesionIpc.Verification.Stream.Delivery
import CohesionIpc.Verification.Stream.LifeCycle

/-! Progress of the connector of a stream server: how far its worker and its destructor get, and
where they come to a halt. A read that has chosen the data does not look at the signal again, so
the destructor waits for a peer that has stopped in the middle of a header or a payload. -/

namespace CohesionIpc.Stream

open Transition CancellableRead.Unix SessionConnector

/-! ## A read that may be cancelled -/

/-- The size that a read in progress was called with. -/
def sizeAsked : Reader → Option ℕ
  | .selecting size | .selected size _ _ | .unsignalled size _ | .reading size _ _ => some size
  | .outside | .finished _ => none

/-- There is something for `fread`, or the end of the file. -/
def Readable (x : State) : Prop := x.available ≠ [] ∨ x.closed = true

/-- What `select` has seen is true, and `fread` is entered only when it need not wait for its first
byte. -/
def Chosen (x : State) : Prop :=
  match x.reader with
  | .selected _ signal data => (signal = true ∨ data = true) ∧ (data = true → Readable x)
  | .unsignalled _ data => data = true ∧ Readable x
  | .reading size bytes _ => bytes.length ≤ size ∧ (bytes ≠ [] ∨ Readable x)
  | .outside | .selecting _ | .finished _ => True

variable {x x' : State} {l : Label}

theorem readable_of_dataReady (h : x.dataReady = true) : Readable x := by
  rw [State.dataReady, Bool.or_eq_true, Bool.not_eq_true', List.isEmpty_eq_false_iff] at h
  exact h

theorem sizeAsked_step (h : Step x l x') (hl : insideRead l) {n : ℕ}
    (hn : sizeAsked x'.reader = some n) : sizeAsked x.reader = some n := by
  cases h with
  | readCall | readReturn | cancel | arrive | close => cases hl
  | selectInterrupted => exact hn
  | signalled | freadReturn => cases hn
  | select h | unsignalled h | dataReady h | dataNotReady h | readSome _ h | readEof h =>
      rw [h]
      exact hn

theorem chosen_step (h : Step x l x') (hx : Chosen x) : Chosen x' := by
  cases h with
  | readCall | readReturn | signalled | dataNotReady | freadReturn => trivial
  | selectInterrupted => exact hx
  | select h hready => exact ⟨Bool.or_eq_true_iff.mp hready, readable_of_dataReady⟩
  | @unsignalled size data h =>
      rw [Chosen, h] at hx
      have hdata : data = true := hx.1.resolve_left (by decide)
      exact ⟨hdata, hx.2 hdata⟩
  | dataReady h =>
      rw [Chosen, h] at hx
      exact ⟨Nat.zero_le _, .inr hx.2⟩
  | @readSome size bytes n h hn =>
      rw [Chosen, h] at hx
      have htake : (x.available.take n).length = n := List.length_take_of_le hn.2.1
      refine ⟨?_, .inl ?_⟩
      · rw [List.length_append, htake]
        exact hn.2.2
      · refine List.append_ne_nil_of_right_ne_nil _ ?_
        rw [← List.length_pos_iff, htake]
        exact hn.1
  | readEof h heof =>
      rw [Chosen, h] at hx
      exact ⟨hx.1, .inr (.inr heof.2.1)⟩
  | cancel => exact hx
  | arrive bytes hopen =>
      have hreadable : Readable x → Readable { x with available := x.available ++ bytes } :=
        Or.imp_left (List.append_ne_nil_of_left_ne_nil · _)
      unfold Chosen at hx ⊢
      cases hreader : x.reader with
      | outside | selecting | finished => trivial
      | selected =>
          rw [hreader] at hx
          exact ⟨hx.1, fun hdata => hreadable (hx.2 hdata)⟩
      | unsignalled =>
          rw [hreader] at hx
          exact ⟨hx.1, hreadable hx.2⟩
      | reading =>
          rw [hreader] at hx
          exact ⟨hx.1, hx.2.imp_right hreadable⟩
  | close =>
      unfold Chosen at hx ⊢
      cases hreader : x.reader with
      | outside | selecting | finished => trivial
      | selected =>
          rw [hreader] at hx
          exact ⟨hx.1, fun _ => .inr rfl⟩
      | unsignalled =>
          rw [hreader] at hx
          exact ⟨hx.1, .inr rfl⟩
      | reading =>
          rw [hreader] at hx
          exact ⟨hx.1, .inr (.inr rfl)⟩

theorem chosen_outside {y : State} (hy : y.reader = .outside) : Chosen y := by
  rw [Chosen, hy]
  trivial

/-! ## The connector -/

/-- The worker is at the read that it asks for, and the signal is up once the destructor has been
called. -/
structure Settled (s : SessionConnector) : Prop where
  calls : Calls s
  asked : ∀ n, sizeAsked s.input.reader = some n → s.worker.requested = some n
  chosen : Chosen s.input
  signal : s.destructor ≠ .notCalled → s.input.cancels ≠ 0

variable {host : ByteOrder} {s t : SessionConnector} {e : Event}

theorem settled_init (host : ByteOrder) (size : UInt32) : Settled (init host size) where
  calls := calls_init host size
  asked _ h := by cases h
  chosen := trivial
  signal h := absurd rfl h

/-- The worker goes on outside `_reader.read`. -/
theorem Settled.outside (hs : Settled s) (hcalls : Calls t) (hinput : t.input.reader = .outside)
    (hcancels : t.input.cancels = s.input.cancels) (hdestructor : t.destructor = s.destructor) :
    Settled t where
  calls := hcalls
  asked _ h := by
    rw [hinput] at h
    cases h
  chosen := chosen_outside hinput
  signal h := by
    rw [hcancels]
    exact hs.signal (hdestructor ▸ h)

theorem settled_step (hs : Settled s) (h : Taken host s e t) : Settled t := by
  have hcalls := calls_step hs.calls h
  have houtside : s.worker.requested = none → s.input.reader = .outside := by
    intro hnone
    by_contra hne
    exact hs.calls.reading hne hnone
  cases h with
  | factoryReturns hw | factoryThrows hw | messageReturns hw | messageThrows hw
  | disconnectReturns hw =>
      exact hs.outside hcalls (houtside (by rw [hw]; rfl)) rfl rfl
  | selectFails | cancelled | headerRead | headerCut | payloadRead | stray | resizeThrows =>
      exact hs.outside hcalls rfl rfl rfl
  | readStarts hn h =>
      refine ⟨hcalls, ?_, chosen_step h hs.chosen, ?_⟩
      · intro n hsize
        cases h with
        | readCall =>
            cases hsize
            exact hn
      · intro hd
        rw [cancels_step h (by simp)]
        exact hs.signal hd
  | reads hl h =>
      refine ⟨hcalls, fun n hn => hs.asked n (sizeAsked_step h hl hn), chosen_step h hs.chosen, ?_⟩
      intro hd
      rw [cancels_step h (by rintro rfl; cases hl)]
      exact hs.signal hd
  | arrive h =>
      have hchosen := chosen_step h hs.chosen
      cases h with
      | arrive => exact ⟨hcalls, hs.asked, hchosen, hs.signal⟩
  | close h =>
      have hchosen := chosen_step h hs.chosen
      cases h with
      | close => exact ⟨hcalls, hs.asked, hchosen, hs.signal⟩
  | destroy hd h =>
      have hchosen := chosen_step h hs.chosen
      cases h with
      | cancel => exact ⟨hcalls, hs.asked, hchosen, fun _ => Nat.succ_ne_zero _⟩
  | joins hd hw =>
      refine ⟨hcalls, hs.asked, hs.chosen, fun _ => hs.signal ?_⟩
      rw [hd]
      exact fun h => by cases h

theorem settled_run {size : UInt32} {events : List Event}
    (hrun : run (SessionConnector.step host) (init host size) events = some s) : Settled s :=
  run_invariant_of_step Settled (fun _ _ _ hs ht => settled_step hs (step_taken ht))
    (settled_init host size) hrun

/-! ## What is left to do -/

/-- A call under way goes on: the worker does, or the destructor that has been called. -/
def Event.continues : Event → Bool
  | .reads l => decide (l ≠ .selectInterrupted)
  | .selectFails | .arrive _ | .close | .destroy => false
  | .factoryReturns | .factoryThrows | .readStarts | .readReturns | .resizeThrows
  | .messageReturns | .messageThrows | .disconnectReturns | .joins => true

/-- What the bytes that arrive take at most. -/
def Event.cost : Event → ℕ
  | .arrive bytes => 5 * bytes.length
  | .factoryReturns | .factoryThrows | .readStarts | .reads _ | .selectFails | .readReturns
  | .resizeThrows | .messageReturns | .messageThrows | .disconnectReturns | .close | .destroy
  | .joins => 0

/-- The steps of a read, those that take bytes apart. -/
def stepsOfRead : Reader → ℕ
  | .outside => 7
  | .selecting _ => 6
  | .selected _ _ _ => 5
  | .unsignalled _ _ => 4
  | .reading _ _ false => 3
  | .reading _ _ true => 2
  | .finished _ => 1

/-- The steps of the worker up to the next byte that it needs. -/
def Worker.stepsLeft : Worker → Reader → ℕ
  | .creating, _ | .inMessage, _ => 9
  | .header, r => 1 + stepsOfRead r
  | .payload _, r => 9 + stepsOfRead r
  | .inDisconnect, _ => 1
  | .exited _, _ => 0

def Destructor.stepsLeft : Destructor → ℕ
  | .notCalled | .joining => 1
  | .returned => 0

/-- Each byte pays for its own step, and four for the read of a payload. -/
def SessionConnector.stepsLeft (s : SessionConnector) : ℕ :=
  5 * s.input.available.length + 4 * (got s.input.reader).length +
    s.worker.stepsLeft s.input.reader + s.destructor.stepsLeft

/-- What a step inside a read takes from the bytes and the steps of the read. -/
theorem stepsOfRead_step (h : Step x l x') (hl : insideRead l) (hx : Chosen x) :
    (if l ≠ .selectInterrupted then 1 else 0) + 5 * x'.available.length +
        4 * (got x'.reader).length + stepsOfRead x'.reader ≤
      5 * x.available.length + 4 * (got x.reader).length + stepsOfRead x.reader := by
  cases h with
  | readCall | readReturn | cancel | arrive | close => cases hl
  | selectInterrupted => simp
  | select h | signalled h | unsignalled h | dataReady h | readEof h =>
      simp only [h, got, stepsOfRead, List.length_nil, ne_eq, reduceCtorEq, not_false_eq_true,
        if_true]
      omega
  | dataNotReady h =>
      rw [Chosen, h] at hx
      cases hx.1
  | readSome n h hn =>
      simp only [h, got, stepsOfRead, List.length_append, List.length_drop, List.length_take,
        ne_eq, reduceCtorEq, not_false_eq_true, if_true]
      omega
  | @freadReturn size bytes eof h =>
      simp only [h, got, ne_eq, reduceCtorEq, not_false_eq_true, if_true]
      cases eof <;> simp only [stepsOfRead] <;> omega

theorem stepsLeft_step (hs : Settled s) (h : Taken host s e t) :
    (if e.continues then 1 else 0) + t.stepsLeft ≤ s.stepsLeft + e.cost := by
  cases h with
  | factoryReturns hw | messageReturns hw =>
      have houtside : s.input.reader = .outside := by
        by_contra hne
        exact hs.calls.reading hne (by rw [hw]; rfl)
      simp only [Event.continues, SessionConnector.stepsLeft, hw, houtside, Worker.stepsLeft,
        stepsOfRead, Event.cost, if_true]
      omega
  | factoryThrows hw | messageThrows hw | disconnectReturns hw =>
      simp only [Event.continues, SessionConnector.stepsLeft, hw, Worker.stepsLeft, Event.cost,
        if_true]
      omega
  | @readStarts n input hn h =>
      cases h with
      | readCall _ houtside =>
          cases hw : s.worker with
          | header | payload =>
              simp only [Event.continues, SessionConnector.stepsLeft, hw, houtside, got,
                Worker.stepsLeft, stepsOfRead, Event.cost, List.length_nil, if_true]
              omega
          | creating | inMessage | inDisconnect | exited =>
              rw [hw] at hn
              cases hn
  | @reads l input hl h =>
      have hread := stepsOfRead_step h hl hs.chosen
      have hrequested := hs.calls.reading (reader_ne_outside h hl)
      simp only [Event.continues, decide_eq_true_eq, SessionConnector.stepsLeft, Event.cost]
      cases hw : s.worker with
      | header | payload =>
          simp only [Worker.stepsLeft]
          omega
      | creating | inMessage | inDisconnect | exited =>
          rw [hw] at hrequested
          exact absurd rfl hrequested
  | selectFails h =>
      simp only [Event.continues, SessionConnector.stepsLeft, h, got, Worker.stepsLeft, Event.cost,
        List.length_nil, Bool.false_eq_true, if_false]
      omega
  | cancelled h =>
      have hrequested := hs.calls.reading (by rw [h]; simp)
      cases hw : s.worker with
      | header | payload =>
          simp only [Event.continues, SessionConnector.stepsLeft, h, hw, got, Worker.stepsLeft,
            stepsOfRead, Event.cost, List.length_nil, if_true]
          omega
      | creating | inMessage | inDisconnect | exited =>
          rw [hw] at hrequested
          exact absurd rfl hrequested
  | headerRead h hw hlen =>
      simp only [Event.continues, SessionConnector.stepsLeft, h, hw, hlen, got, Worker.stepsLeft,
        stepsOfRead, Event.cost, List.length_nil, if_true]
      omega
  | headerCut h hw | payloadRead h hw | resizeThrows h hw =>
      simp only [Event.continues, SessionConnector.stepsLeft, h, hw, got, Worker.stepsLeft,
        stepsOfRead, Event.cost, List.length_nil, if_true]
      omega
  | stray h hw => exact absurd hw (hs.calls.reading (by rw [h]; simp))
  | arrive h =>
      cases h with
      | arrive bytes =>
          simp only [Event.continues, SessionConnector.stepsLeft, Event.cost, List.length_append,
            Bool.false_eq_true, if_false]
          omega
  | close h =>
      cases h with
      | close => simp [Event.continues, SessionConnector.stepsLeft, Event.cost]
  | destroy hd h =>
      cases h with
      | cancel =>
          simp [Event.continues, SessionConnector.stepsLeft, Event.cost, hd, Destructor.stepsLeft]
  | joins hd hw =>
      simp only [Event.continues, SessionConnector.stepsLeft, Event.cost, hd,
        Destructor.stepsLeft, if_true]
      omega

/-! ## Where it comes to a halt -/

/-- No call under way can go on. -/
def Stuck (host : ByteOrder) (s : SessionConnector) : Prop :=
  ∀ e : Event, e.continues = true → s.step host e = none

/-- The reader waits for the peer or the signal, and everything that has come has been read. -/
structure InSelect (n : ℕ) (x : State) : Prop where
  reader : x.reader = .selecting n
  available : x.available = []
  closed : x.closed = false
  cancels : x.cancels = 0

/-- The reader has got a part of what it has asked for, and waits for the peer alone. -/
structure InFread (n : ℕ) (x : State) : Prop where
  reader : ∃ bytes, x.reader = .reading n bytes false ∧ bytes ≠ [] ∧ bytes.length < n
  available : x.available = []
  closed : x.closed = false

/-- The connector has come to a halt. -/
inductive Halted (s : SessionConnector) : Prop
  | exited (how : Exit) (hworker : s.worker = .exited how) (hdestructor : s.destructor ≠ .joining)
  | inSelect (n : ℕ) (hworker : s.worker.requested = some n)
      (hdestructor : s.destructor = .notCalled) (hinput : InSelect n s.input)
  | inFread (n : ℕ) (hworker : s.worker.requested = some n) (hinput : InFread n s.input)

/-- A read stops in `select` or in `fread` only. -/
theorem read_halted (hx : Chosen x)
    (h : ∀ l, insideRead l → l ≠ .selectInterrupted → CancellableRead.Unix.step x l = none) :
    x.reader = .outside ∨ (∃ outcome, x.reader = .finished outcome) ∨ (∃ n, InSelect n x) ∨
      ∃ n, InFread n x := by
  cases hreader : x.reader with
  | outside => exact .inl rfl
  | finished outcome => exact .inr (.inl ⟨outcome, rfl⟩)
  | selecting n =>
      have hready : ¬ (x.signalReady || x.dataReady) = true := by
        intro hready
        have hselect := h .select rfl (by decide)
        simp only [CancellableRead.Unix.step, hreader, if_pos hready, reduceCtorEq] at hselect
      rw [Bool.or_eq_true, not_or, Bool.not_eq_true, Bool.not_eq_true] at hready
      obtain ⟨hsignal, hdata⟩ := hready
      rw [State.dataReady, Bool.or_eq_false_iff, Bool.not_eq_false', List.isEmpty_iff] at hdata
      have hcancels : x.cancels = 0 := Nat.eq_zero_of_not_pos (of_decide_eq_false hsignal)
      exact .inr (.inr (.inl ⟨n, hreader, hdata.1, hdata.2, hcancels⟩))
  | selected n signal data =>
      have hsignal := h .testSignal rfl (by decide)
      cases signal <;> simp [CancellableRead.Unix.step, hreader] at hsignal
  | unsignalled n data =>
      have hdata := h .testData rfl (by decide)
      cases data <;> simp [CancellableRead.Unix.step, hreader] at hdata
  | reading n bytes eof =>
      rw [Chosen, hreader] at hx
      have hreturn := h .freadReturn rfl (by decide)
      simp only [CancellableRead.Unix.step, hreader, ite_eq_right_iff, reduceCtorEq, imp_false,
        not_or, Bool.not_eq_true] at hreturn
      obtain ⟨hne, rfl⟩ := hreturn
      have hless : bytes.length < n := lt_of_le_of_ne hx.1 hne
      have havailable : x.available = [] := by
        by_contra hsome
        have hpos := List.length_pos_iff.mpr hsome
        have hread := h (.readSome 1) rfl (by decide)
        simp only [CancellableRead.Unix.step, hreader, ite_eq_right_iff, reduceCtorEq,
          imp_false] at hread
        omega
      have hclosed : x.closed = false := by
        have heof := h .readEof rfl (by decide)
        simpa [CancellableRead.Unix.step, hreader, havailable, hless] using heof
      have hbegun : bytes ≠ [] := by
        refine hx.2.resolve_right ?_
        rintro (hsome | hend)
        · exact hsome havailable
        · cases hend.symm.trans hclosed
      exact .inr (.inr (.inr ⟨n, ⟨bytes, hreader, hbegun, hless⟩, havailable, hclosed⟩))

theorem Stuck.halted (h : Stuck host s) (hs : Settled s) : Halted s := by
  cases hworker : s.worker with
  | creating =>
      have hreturns := h .factoryReturns rfl
      simp [SessionConnector.step, hworker] at hreturns
  | inMessage =>
      have hreturns := h .messageReturns rfl
      simp [SessionConnector.step, hworker] at hreturns
  | inDisconnect =>
      have hreturns := h .disconnectReturns rfl
      simp [SessionConnector.step, hworker] at hreturns
  | exited how =>
      refine .exited how hworker fun hd => ?_
      have hjoins := h .joins rfl
      simp [SessionConnector.step, hworker, hd] at hjoins
  | header | payload =>
      have hread : ∀ l, insideRead l → l ≠ .selectInterrupted →
          CancellableRead.Unix.step s.input l = none := by
        intro l hl hne
        have hreads := h (.reads l) (decide_eq_true hne)
        simpa [SessionConnector.step, hl] using hreads
      rcases read_halted hs.chosen hread with
        houtside | ⟨outcome, hfinished⟩ | ⟨n, hinput⟩ | ⟨n, hinput⟩
      · have hstarts := h .readStarts rfl
        simp [SessionConnector.step, hworker, Worker.requested, CancellableRead.Unix.step,
          houtside] at hstarts
      · have hreturns := h .readReturns rfl
        simp [SessionConnector.step, hfinished] at hreturns
      · refine .inSelect n (hs.asked n (by rw [hinput.reader]; rfl)) ?_ hinput
        by_contra hd
        exact hs.signal hd hinput.cancels
      · obtain ⟨bytes, hreader, -⟩ := hinput.reader
        exact .inFread n (hs.asked n (by rw [hreader]; rfl)) hinput

theorem running_of_requested {n : ℕ} (hn : s.worker.requested = some n) :
    s.worker ≠ .creating ∧ s.worker ≠ .inMessage ∧ s.worker ≠ .inDisconnect ∧
      ∀ how, s.worker ≠ .exited how := by
  cases hworker : s.worker with
  | header | payload => simp
  | creating | inMessage | inDisconnect | exited =>
      rw [hworker] at hn
      cases hn

/-- A worker that waits inside a read does not go on outside of it. -/
theorem stuck_of_reading {n : ℕ} (hn : s.worker.requested = some n)
    (hbegun : s.input.reader ≠ .outside) (hrunning : ∀ outcome, s.input.reader ≠ .finished outcome)
    (hread : ∀ l, l ≠ .selectInterrupted → insideRead l →
      CancellableRead.Unix.step s.input l = none) : Stuck host s := by
  obtain ⟨hcreating, hinMessage, hinDisconnect, hexited⟩ := running_of_requested hn
  intro e he
  cases e with
  | selectFails | arrive | close | destroy => cases he
  | factoryReturns | factoryThrows => exact if_neg hcreating
  | messageReturns | messageThrows => exact if_neg hinMessage
  | disconnectReturns => exact if_neg hinDisconnect
  | readStarts =>
      simp only [SessionConnector.step, hn]
      cases hreader : s.input.reader with
      | outside => exact absurd hreader hbegun
      | _ => simp [CancellableRead.Unix.step, hreader]
  | reads l =>
      simp only [SessionConnector.step]
      split
      · rename_i hl
        rw [hread l (of_decide_eq_true he) hl]
        rfl
      · rfl
  | readReturns | resizeThrows =>
      cases hreader : s.input.reader with
      | finished outcome => exact absurd hreader (hrunning outcome)
      | _ => simp [SessionConnector.step, hreader]
  | joins =>
      simp only [SessionConnector.step]
      split
      · rename_i how _ hworker
        exact absurd hworker (hexited how)
      · rfl

theorem Halted.stuck (h : Halted s) (hs : Settled s) : Stuck host s := by
  cases h with
  | exited how hworker hdestructor =>
      have houtside : s.input.reader = .outside := by
        by_contra hne
        exact hs.calls.reading hne (by rw [hworker]; rfl)
      intro e he
      cases e with
      | selectFails | arrive | close | destroy => cases he
      | joins =>
          simp only [SessionConnector.step]
          split
          · rename_i hjoining _
            exact absurd hjoining hdestructor
          · rfl
      | reads l =>
          simp only [SessionConnector.step]
          cases l <;> simp [insideRead, CancellableRead.Unix.step, houtside]
      | _ => simp [SessionConnector.step, hworker, houtside, Worker.requested]
  | inSelect n hworker hdestructor hinput =>
      refine stuck_of_reading hworker (by simp [hinput.reader]) (by simp [hinput.reader]) ?_
      intro l hne hl
      cases l with
      | selectInterrupted => exact absurd rfl hne
      | readCall | readReturn | cancel | arrive | close => cases hl
      | select =>
          simp [CancellableRead.Unix.step, hinput.reader, State.signalReady, hinput.cancels,
            State.dataReady, hinput.available, hinput.closed]
      | _ => simp [CancellableRead.Unix.step, hinput.reader]
  | inFread n hworker hinput =>
      obtain ⟨bytes, hreader, -, hless⟩ := hinput.reader
      refine stuck_of_reading hworker (by simp [hreader]) (by simp [hreader]) ?_
      intro l hne hl
      cases l with
      | readCall | readReturn | cancel | arrive | close => cases hl
      | readSome k =>
          simp only [CancellableRead.Unix.step, hreader, hinput.available, List.length_nil]
          exact if_neg (by omega)
      | readEof => simp [CancellableRead.Unix.step, hreader, hinput.closed]
      | freadReturn => simp [CancellableRead.Unix.step, hreader, Nat.ne_of_lt hless]
      | _ => simp [CancellableRead.Unix.step, hreader]

/-- The worker and the destructor take no more steps than the bytes that arrive pay for, and they
come to a halt where the worker has ended, where it waits for the peer and nobody has called the
destructor, or where it waits in the middle of a header or a payload, whether the destructor has
been called or not. -/
theorem connector_proceeds (host : ByteOrder) (size : UInt32) {events : List Event}
    {s : SessionConnector}
    (hrun : run (SessionConnector.step host) (init host size) events = some s) :
    events.countP Event.continues ≤ 10 + (events.map Event.cost).sum ∧
      (Stuck host s ↔ Halted s) := by
  have hs := settled_run hrun
  refine ⟨?_, fun h => h.halted hs, fun h => h.stuck hs⟩
  have hcount : events.countP Event.continues + s.stepsLeft ≤
      (init host size).stepsLeft + (events.map Event.cost).sum :=
    countP_add_le_of_cost (P := fun _ _ => True) Event.cost Settled SessionConnector.stepsLeft
      (fun _ _ _ hs _ ht => ⟨settled_step hs (step_taken ht), stepsLeft_step hs (step_taken ht)⟩)
      (settled_init host size) (along_of_forall (fun _ _ _ => trivial) _) hrun
  have hinit : (init host size).stepsLeft = 10 := rfl
  omega

/-- The destructor is called when one byte of a payload of two has come. -/
def cutPayload : List Event :=
  [.factoryReturns, .arrive [2, 0, 0, 0, 7]] ++ readOf 4 ++
    [.readStarts, .reads .select, .reads .testSignal, .reads .testData, .reads (.readSome 1),
      .destroy]

theorem connector_proceeds_cut :
    ∃ s, run (SessionConnector.step .littleEndian) (init .littleEndian 0) cutPayload = some s ∧
      cutPayload.countP Event.continues ≤ 10 + (cutPayload.map Event.cost).sum ∧
      s.destructor = .joining ∧ Stuck .littleEndian s := by
  obtain ⟨s, hrun, hdestructor, hworker, hinput⟩ : ∃ s,
      run (SessionConnector.step .littleEndian) (init .littleEndian 0) cutPayload = some s ∧
        s.destructor = .joining ∧ s.worker.requested = some 2 ∧ InFread 2 s.input :=
    ⟨_, rfl, rfl, rfl, ⟨[7], rfl, by decide, by decide⟩, rfl, rfl⟩
  obtain ⟨hcount, hstuck⟩ := connector_proceeds .littleEndian 0 hrun
  exact ⟨s, hrun, hcount, hdestructor, hstuck.mpr (.inFread 2 hworker hinput)⟩

end CohesionIpc.Stream
