import CohesionIpc.Foundation.Framing

/-! A stream between two parties as a channel of messages: the writer puts frames into it, the
symbols come in portions of any length, and the reader takes the frames that have come. -/

namespace CohesionIpc

/-- What has come and has not been read, in front of what has not come yet. -/
structure Link (β : Type*) where
  arrived : List β
  inFlight : List β
deriving DecidableEq, Repr

namespace Link

variable {β : Type*}

def empty : Link β := ⟨[], []⟩

def write (l : Link β) (symbols : List β) : Link β := { l with inFlight := l.inFlight ++ symbols }

/-- The next `n` symbols come. -/
def transfer (l : Link β) (n : ℕ) : Link β :=
  ⟨l.arrived ++ l.inFlight.take n, l.inFlight.drop n⟩

/-- The stream ends behind the next `n` symbols. -/
def cut (l : Link β) (n : ℕ) : Link β :=
  ⟨l.arrived.take n, l.inFlight.take (n - l.arrived.length)⟩

theorem stream_cut (l : Link β) (n : ℕ) :
    (l.cut n).arrived ++ (l.cut n).inFlight = (l.arrived ++ l.inFlight).take n :=
  List.take_append.symm

/-- The stream is that of the frames of `ms`. -/
structure Carries (F : LengthPrefix β) (l : Link β) (ms : List (List β)) : Prop where
  short : ∀ m ∈ ms, m.length < F.bound
  stream : l.arrived ++ l.inFlight = ms.flatMap F.frame

variable {F : LengthPrefix β} {l : Link β} {ms : List (List β)} {m rest : List β}

theorem carries_empty (F : LengthPrefix β) : (empty : Link β).Carries F [] :=
  ⟨fun _ h => absurd h List.not_mem_nil, rfl⟩

theorem Carries.write (h : l.Carries F ms) {new : List (List β)}
    (hnew : ∀ m ∈ new, m.length < F.bound) :
    (l.write (new.flatMap F.frame)).Carries F (ms ++ new) := by
  refine ⟨?_, ?_⟩
  · intro m hm
    rcases List.mem_append.mp hm with hm | hm
    · exact h.short m hm
    · exact hnew m hm
  · rw [Link.write, ← List.append_assoc, h.stream, List.flatMap_append]

theorem Carries.transfer (h : l.Carries F ms) (n : ℕ) : (l.transfer n).Carries F ms := by
  refine ⟨h.short, ?_⟩
  rw [Link.transfer, List.append_assoc, List.take_append_drop, h.stream]

/-- The frame that has come in full is that of the first message. -/
theorem Carries.receive (h : l.Carries F ms) (hnext : F.next? l.arrived = some (m, rest)) :
    ∃ ms', ms = m :: ms' ∧ ({ l with arrived := rest } : Link β).Carries F ms' := by
  obtain ⟨hm, harrived⟩ := F.next?_eq_some.mp hnext
  have hstream := h.stream
  rw [harrived, List.append_assoc] at hstream
  cases ms with
  | nil =>
      have hlen := congrArg List.length hstream
      have hwidth := F.width_pos
      rw [List.length_append, F.length_frame, List.flatMap_nil, List.length_nil] at hlen
      omega
  | cons m' ms' =>
      have hm' := h.short m' List.mem_cons_self
      rw [List.flatMap_cons] at hstream
      have hboth := F.next?_frame_append hm (rest ++ l.inFlight)
      rw [hstream, F.next?_frame_append hm', Option.some.injEq, Prod.mk.injEq] at hboth
      obtain ⟨rfl, hrest⟩ := hboth
      exact ⟨ms', rfl, fun x hx => h.short x (List.mem_cons_of_mem _ hx), hrest.symm⟩

/-- The first message comes when everything in flight has come. -/
theorem Carries.come (h : l.Carries F (m :: ms)) :
    ∃ rest, F.next? (l.transfer l.inFlight.length).arrived = some (m, rest) := by
  refine ⟨ms.flatMap F.frame, ?_⟩
  rw [Link.transfer, List.take_length, h.stream, List.flatMap_cons]
  exact F.next?_frame_append (h.short m List.mem_cons_self) _

end Link

end CohesionIpc
