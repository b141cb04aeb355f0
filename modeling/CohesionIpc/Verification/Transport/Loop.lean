import CohesionIpc.Foundation.Link
import CohesionIpc.Model.MessageLoop

/-! `read_messages` call by call on a link that carries frames, while the other end goes on
writing. -/

namespace CohesionIpc

open ByteRepresentation

namespace MessageLoop

/-! ## The loop as a whole -/

section Whole

variable {σ : Type*} (host : ByteOrder) (R : ReadFunction σ) (reorder : Bool)

/-- Turn by turn the loop makes the calls of `read_messages`. -/
theorem iterate_turn (l : MessageLoop) (s : σ) (hstage : l.stage = .header) :
    ∃ k, ((fun p => turn host R reorder p.1 p.2)^[k] (l, s)).1.stage = .ended ∧
      ((fun p => turn host R reorder p.1 p.2)^[k] (l, s)).1.calls =
        l.calls ++ (readMessagesLoop host R reorder ⟨l.size, l.buffer, s⟩).map .message := by
  induction hn : (R.unread s).length using Nat.strongRecOn generalizing l s with
  | _ n ih =>
      have hturn := turn_eq host R reorder l s hstage
      cases hr : readMessagesTurn host R reorder ⟨l.size, l.buffer, s⟩ with
      | none =>
          rw [hr] at hturn
          refine ⟨1, hturn.1, ?_⟩
          rw [readMessagesLoop_of_none host R reorder hr, List.map_nil, List.append_nil]
          exact hturn.2
      | some r =>
          rw [hr] at hturn
          have hlt := readMessagesTurn_unread_lt hr
          obtain ⟨k, hended, hcalls⟩ := ih _ (hn ▸ hlt)
            ⟨r.size, r.buffer, .header, l.calls ++ [.message r.buffer]⟩ r.stream rfl rfl
          have hnext : ∀ P : MessageLoop × σ → Prop,
              P ((fun p => turn host R reorder p.1 p.2)^[k]
                (⟨r.size, r.buffer, .header, l.calls ++ [.message r.buffer]⟩, r.stream)) →
              P ((fun p => turn host R reorder p.1 p.2)^[k + 1] (l, s)) := by
            intro P hP
            rwa [Function.iterate_succ_apply, hturn]
          refine ⟨k + 1, hnext (fun p => p.1.stage = .ended) hended, ?_⟩
          rw [readMessagesLoop_of_some host R reorder hr, List.map_cons]
          apply hnext fun p => p.1.calls = _
          rw [hcalls, List.append_assoc, List.singleton_append]

/-- From its start to its end the loop makes the calls of `read_messages`. -/
theorem iterate_turn_init (size : UInt32) (s : σ) :
    ∃ k, ((fun p => turn host R reorder p.1 p.2)^[k] (init host size, s)).1.stage = .ended ∧
      ((fun p => turn host R reorder p.1 p.2)^[k] (init host size, s)).1.calls =
        (readMessages host R reorder size s).map .message :=
  iterate_turn host R reorder (init host size) s rfl

end Whole

/-! ## The loop on a link -/

/-- What the link holds behind what the loop has read. -/
def Ahead (order : ByteOrder) (l : MessageLoop) (stream : List UInt8) (ms : List (List UInt8)) :
    Prop :=
  match l.stage with
  | .header | .inMessage => stream = ms.flatMap (framing order).frame
  | .payload n => l.buffer.length = n ∧ ∃ m ms', ms = m :: ms' ∧ m.length = n ∧
      stream = m ++ ms'.flatMap (framing order).frame
  | .ended => ms = []

/-- Of the messages that were sent, the loop has passed on the first ones, and it will find the
others on the link. -/
structure Reads (order : ByteOrder) (l : MessageLoop) (link : Link UInt8)
    (sent : List (List UInt8)) : Prop where
  size : l.size.length = 4
  short : ∀ m ∈ sent, m.length < 2 ^ 32
  ahead : ∃ passed ms, l.calls = passed.map .message ∧ sent = passed ++ ms ∧
    l.Ahead order (link.arrived ++ link.inFlight) ms

variable {host order : ByteOrder} {reorder : Bool} {l : MessageLoop} {link link' : Link UInt8}
  {sent : List (List UInt8)}

theorem reads_init (host order : ByteOrder) (size : UInt32) :
    (init host size).Reads order .empty [] :=
  ⟨length_bytes host size, fun _ h => absurd h List.not_mem_nil, [], [], rfl, rfl, rfl⟩

/-- Bytes that move do not matter. -/
theorem Reads.move (h : l.Reads order link sent)
    (hstream : link'.arrived ++ link'.inFlight = link.arrived ++ link.inFlight) :
    l.Reads order link' sent := by
  refine { h with ahead := ?_ }
  rw [hstream]
  exact h.ahead

theorem Reads.transfer (h : l.Reads order link sent) (n : ℕ) :
    l.Reads order (link.transfer n) sent := by
  apply h.move
  rw [Link.transfer, List.append_assoc, List.take_append_drop]

theorem Reads.write (h : l.Reads order link sent) (hstage : l.stage ≠ .ended) {m : List UInt8}
    (hm : m.length < 2 ^ 32) :
    l.Reads order (link.write ((framing order).frame m)) (sent ++ [m]) := by
  obtain ⟨passed, ms, hcalls, hsent, hahead⟩ := h.ahead
  have hone : (ms ++ [m]).flatMap (framing order).frame =
      ms.flatMap (framing order).frame ++ (framing order).frame m := by
    rw [List.flatMap_append, List.flatMap_singleton]
  refine ⟨h.size, ?_, passed, ms ++ [m], hcalls, ?_, ?_⟩
  · intro x hx
    rcases List.mem_append.mp hx with hx | hx
    · exact h.short x hx
    · rw [List.mem_singleton.mp hx]
      exact hm
  · rw [hsent, List.append_assoc]
  · rw [Link.write, ← List.append_assoc]
    simp only [Ahead] at hahead ⊢
    split at hahead
    · rw [hahead, hone]
    · rw [hahead, hone]
    · obtain ⟨hbuffer, m', ms', rfl, hlen, hstream⟩ := hahead
      refine ⟨hbuffer, m', ms' ++ [m], rfl, hlen, ?_⟩
      rw [hstream, List.append_assoc, List.flatMap_append, List.flatMap_singleton]
    · rename_i hended
      exact absurd hended hstage

theorem Reads.messageReturned (h : l.Reads order link sent) (hstage : l.stage = .inMessage) :
    l.messageReturned.Reads order link sent := by
  obtain ⟨passed, ms, hcalls, hsent, hahead⟩ := h.ahead
  refine ⟨h.size, h.short, passed, ms, hcalls, hsent, ?_⟩
  simp only [Ahead, hstage] at hahead
  exact hahead

variable (host reorder) in
/-- The header has come in full: it is that of the next message. -/
theorem Reads.obtainsHeader (h : l.Reads (headerOrder host reorder) link sent)
    (hstage : l.stage = .header) (hn : 4 ≤ link.arrived.length) :
    (l.returned host reorder (link.arrived.take 4)).Reads (headerOrder host reorder)
        { link with arrived := link.arrived.drop 4 } sent ∧
      ∃ n, (l.returned host reorder (link.arrived.take 4)).stage = .payload n := by
  have hlen : (link.arrived.take 4).length = 4 := List.length_take_of_le hn
  have hover : Buffer.overwrite l.size (link.arrived.take 4) = link.arrived.take 4 :=
    Buffer.overwrite_of_length_eq (hlen.trans h.size.symm)
  obtain ⟨passed, ms, hcalls, hsent, hahead⟩ := h.ahead
  simp only [Ahead, hstage] at hahead
  simp only [returned, hstage, if_pos hlen, hover, value_headerOrder host reorder hlen]
  refine ⟨⟨?_, h.short, passed, ms, hcalls, hsent, ?_⟩, _, rfl⟩
  · cases reorder with
    | false => exact hlen
    | true => exact length_reorder host hlen
  · cases ms with
    | nil =>
        have hnil := congrArg List.length hahead
        rw [List.length_append, List.flatMap_nil, List.length_nil] at hnil
        omega
    | cons m ms =>
        have hm : m.length < (framing (headerOrder host reorder)).bound :=
          h.short m (hsent ▸ List.mem_append_right _ List.mem_cons_self)
        have htake := (framing (headerOrder host reorder)).take_width_frame_append m
          (ms.flatMap (framing (headerOrder host reorder)).frame)
        have hdrop := (framing (headerOrder host reorder)).drop_width_frame_append m
          (ms.flatMap (framing (headerOrder host reorder)).frame)
        rw [← List.flatMap_cons, ← hahead, framing_width] at htake hdrop
        rw [List.take_append_of_le_length hn] at htake
        rw [List.drop_append_of_le_length hn] at hdrop
        have hsize := (framing (headerOrder host reorder)).size_header _ hm
        rw [← htake, framing_size] at hsize
        exact ⟨Buffer.length_resize _ _ _, m, ms, rfl, hsize.symm, hdrop⟩

variable (host reorder) in
/-- The payload has come in full: the message is passed on. -/
theorem Reads.obtainsPayload (h : l.Reads order link sent) {n : ℕ} (hstage : l.stage = .payload n)
    (hn : n ≤ link.arrived.length) :
    (l.returned host reorder (link.arrived.take n)).Reads order
        { link with arrived := link.arrived.drop n } sent ∧
      (l.returned host reorder (link.arrived.take n)).stage = .inMessage := by
  obtain ⟨passed, ms, hcalls, hsent, hahead⟩ := h.ahead
  simp only [Ahead, hstage] at hahead
  obtain ⟨hbuffer, m, ms, rfl, hm, hstream⟩ := hahead
  have htake : link.arrived.take n = m := by
    rw [← List.take_append_of_le_length hn, hstream, List.take_left' hm]
  have hdrop : link.arrived.drop n ++ link.inFlight =
      ms.flatMap (framing order).frame := by
    rw [← List.drop_append_of_le_length hn, hstream, List.drop_left' hm]
  have hover : Buffer.overwrite l.buffer m = m :=
    Buffer.overwrite_of_length_eq (hm.trans hbuffer.symm)
  simp only [returned, hstage, htake, hover]
  refine ⟨⟨h.size, h.short, passed ++ [m], ms, ?_, ?_, hdrop⟩, trivial⟩
  · rw [hcalls, List.map_append, List.map_singleton]
  · rw [hsent, List.append_assoc, List.singleton_append]

/-- What is on the link is less than a read has asked for only between two frames. -/
theorem Reads.of_less (h : l.Reads order link sent) {n : ℕ}
    (hrequested : l.stage.requested = some n)
    (hless : (link.arrived ++ link.inFlight).length < n) :
    l.stage = .header ∧ link.arrived ++ link.inFlight = [] ∧ l.calls = sent.map .message := by
  obtain ⟨passed, ms, hcalls, hsent, hahead⟩ := h.ahead
  cases hstage : l.stage with
  | header =>
      rw [hstage] at hrequested
      cases hrequested
      simp only [Ahead, hstage] at hahead
      cases ms with
      | nil =>
          rw [List.append_nil] at hsent
          exact ⟨rfl, hahead, hcalls.trans (by rw [hsent])⟩
      | cons m ms =>
          rw [hahead, List.flatMap_cons, List.length_append, LengthPrefix.length_frame,
            framing_width] at hless
          omega
  | payload k =>
      rw [hstage] at hrequested
      cases hrequested
      simp only [Ahead, hstage] at hahead
      obtain ⟨-, m, ms', -, hm, hstream⟩ := hahead
      rw [hstream, List.length_append] at hless
      omega
  | inMessage =>
      rw [hstage] at hrequested
      cases hrequested
  | ended =>
      rw [hstage] at hrequested
      cases hrequested

/-- With nothing on the link, the payload that is read next is empty and that of the last
message. -/
theorem Reads.of_nothing (h : l.Reads order link sent) (hstage : l.stage = .payload 0)
    (hnil : link.arrived ++ link.inFlight = []) :
    sent.map .message = l.calls ++ [.message []] := by
  obtain ⟨passed, ms, hcalls, hsent, hahead⟩ := h.ahead
  simp only [Ahead, hstage] at hahead
  obtain ⟨-, m, ms', rfl, hm, hstream⟩ := hahead
  rw [hnil] at hstream
  obtain ⟨-, hrest⟩ := List.append_eq_nil_iff.mp hstream.symm
  cases ms' with
  | nil =>
      rw [hsent, List.length_eq_zero_iff.mp hm, hcalls, List.map_append, List.map_singleton]
  | cons m' ms' =>
      have hlen := congrArg List.length hrest
      rw [List.flatMap_cons, List.length_append, LengthPrefix.length_frame, framing_width,
        List.length_nil] at hlen
      omega

variable (host reorder) in
/-- The stream has ended, and the loop ends with it. -/
theorem Reads.obtainsLess (h : l.Reads order link sent) {n : ℕ}
    (hrequested : l.stage.requested = some n) (hn : link.arrived.length < n)
    (hend : link.inFlight = []) :
    (l.returned host reorder link.arrived).Reads order ⟨[], []⟩ sent ∧
      (l.returned host reorder link.arrived).stage = .ended := by
  have hless : (link.arrived ++ link.inFlight).length < n := by rwa [hend, List.append_nil]
  obtain ⟨hstage, hnil, hcalls⟩ := h.of_less hrequested hless
  have harrived : link.arrived = [] := (List.append_eq_nil_iff.mp hnil).1
  have hcut : ¬ ([] : List UInt8).length = 4 := by decide
  simp only [returned, hstage, harrived, if_neg hcut]
  refine ⟨⟨?_, h.short, sent, [], hcalls, (List.append_nil _).symm, rfl⟩, trivial⟩
  rw [Buffer.overwrite, List.nil_append, List.length_nil, List.drop_zero]
  exact h.size

theorem Reads.calls_prefix (h : l.Reads order link sent) : l.calls <+: sent.map .message := by
  obtain ⟨passed, ms, hcalls, hsent, -⟩ := h.ahead
  rw [hcalls, hsent, List.map_append]
  exact List.prefix_append _ _

theorem Reads.calls_of_ended (h : l.Reads order link sent) (hstage : l.stage = .ended) :
    l.calls = sent.map .message := by
  obtain ⟨passed, ms, hcalls, hsent, hahead⟩ := h.ahead
  simp only [Ahead, hstage] at hahead
  rw [hcalls, hsent, hahead, List.append_nil]

/-- The loop may be over, and `disconnect` called behind the last message. -/
def Follows (order : ByteOrder) (l : MessageLoop) (link : Link UInt8) (sent : List (List UInt8)) :
    Prop :=
  ∃ l₀ : MessageLoop, l₀.Reads order link sent ∧ (l = l₀ ∨ l₀.stage = .ended ∧ l = l₀.disconnect)

theorem Reads.follows (h : l.Reads order link sent) : l.Follows order link sent := ⟨l, h, .inl rfl⟩

theorem Reads.disconnect (h : l.Reads order link sent) (hstage : l.stage = .ended) :
    l.disconnect.Follows order link sent := ⟨l, h, .inr ⟨hstage, rfl⟩⟩

theorem Follows.move (h : l.Follows order link sent)
    (hstream : link'.arrived ++ link'.inFlight = link.arrived ++ link.inFlight) :
    l.Follows order link' sent := by
  obtain ⟨l₀, hreads, hl⟩ := h
  exact ⟨l₀, hreads.move hstream, hl⟩

theorem Follows.write (h : l.Follows order link sent) (hstage : l.stage ≠ .ended) {m : List UInt8}
    (hm : m.length < 2 ^ 32) :
    l.Follows order (link.write ((framing order).frame m)) (sent ++ [m]) := by
  obtain ⟨l₀, hreads, rfl | ⟨hended, rfl⟩⟩ := h
  · exact (hreads.write hstage hm).follows
  · exact absurd hended hstage

theorem Follows.calls_prefix (h : l.Follows order link sent) :
    l.calls <+: sent.map .message ++ [.disconnect] := by
  obtain ⟨l₀, hreads, rfl | ⟨hended, rfl⟩⟩ := h
  · exact hreads.calls_prefix.trans (List.prefix_append _ _)
  · rw [MessageLoop.disconnect, hreads.calls_of_ended hended]

theorem Reads.disconnect_notMem (h : l.Reads order link sent) : .disconnect ∉ l.calls := by
  obtain ⟨passed, ms, hcalls, -⟩ := h.ahead
  rw [hcalls]
  simp

theorem Follows.calls_of_disconnected (h : l.Follows order link sent)
    (hmem : .disconnect ∈ l.calls) :
    l.calls = sent.map .message ++ [.disconnect] ∧ l.stage = .ended := by
  obtain ⟨l₀, hreads, rfl | ⟨hended, rfl⟩⟩ := h
  · exact absurd hmem hreads.disconnect_notMem
  · refine ⟨?_, hended⟩
    rw [MessageLoop.disconnect, hreads.calls_of_ended hended]

theorem Follows.calls_of_ended (h : l.Follows order link sent) (hstage : l.stage = .ended) :
    sent.map .message <+: l.calls := by
  obtain ⟨l₀, hreads, rfl | ⟨hended, rfl⟩⟩ := h
  · rw [hreads.calls_of_ended hstage]
  · rw [MessageLoop.disconnect, hreads.calls_of_ended hended]
    exact List.prefix_append _ _

end MessageLoop

end CohesionIpc
