import CohesionIpc.Model.ReadMessages

/-! What `read_messages` delivers from a stream that ends anywhere. -/

namespace CohesionIpc

variable {σ : Type*}

/-- The vector handed on for a frame whose payload is cut: the bytes that came, then the
tail of the resized vector, which still holds the `previous` payload. -/
def cutPayload (order : ByteOrder) (previous cut : List UInt8) : List UInt8 :=
  Buffer.overwrite (Buffer.resize 0 previous ((framing order).size (cut.take 4))) (cut.drop 4)

variable (host : ByteOrder) (R : ReadFunction σ) (reorder : Bool)

theorem readMessagesTurn_of_frame {r : ReadState σ} {p t : List UInt8}
    (hsize : r.size.length = 4)
    (hnext : (framing (headerOrder host reorder)).next? (R.unread r.stream) = some (p, t)) :
    ∃ r', readMessagesTurn host R reorder r = some r' ∧ r'.size.length = 4 ∧ r'.buffer = p ∧
      R.unread r'.stream = t := by
  obtain ⟨hp, hs⟩ := (framing (headerOrder host reorder)).next?_eq_some.mp hnext
  cases hturn : readMessagesTurn host R reorder r with
  | none =>
      rw [readMessagesTurn_eq_none, hs] at hturn
      simp only [List.length_append, LengthPrefix.length_frame, framing_width] at hturn
      omega
  | some r' =>
      obtain ⟨hsize', hbuffer, hunread⟩ := readMessagesTurn_eq_some host R reorder hsize hturn
      have htake := (framing (headerOrder host reorder)).take_width_frame_append p t
      have hdrop := (framing (headerOrder host reorder)).drop_width_frame_append p t
      rw [← hs, framing_width] at htake hdrop
      rw [htake, hdrop, (framing (headerOrder host reorder)).size_header _ hp] at hbuffer hunread
      refine ⟨r', rfl, hsize', ?_, by simpa using hunread⟩
      rw [hbuffer, List.take_left, Buffer.overwrite_of_length_eq (by simp)]

theorem readMessagesLoop_of_incomplete {r : ReadState σ} (hsize : r.size.length = 4)
    (hnext : (framing (headerOrder host reorder)).next? (R.unread r.stream) = none) :
    readMessagesLoop host R reorder r =
      if (R.unread r.stream).length < 4 then []
      else [cutPayload (headerOrder host reorder) r.buffer (R.unread r.stream)] := by
  by_cases hlen : (R.unread r.stream).length < 4
  · rw [if_pos hlen]
    exact readMessagesLoop_of_none host R reorder
      ((readMessagesTurn_eq_none host R reorder).mpr hlen)
  · rw [if_neg hlen]
    have hcut : ((R.unread r.stream).drop 4).length <
        (framing (headerOrder host reorder)).size ((R.unread r.stream).take 4) :=
      ((framing (headerOrder host reorder)).next?_eq_none.mp hnext).resolve_left hlen
    cases hturn : readMessagesTurn host R reorder r with
    | none => exact absurd ((readMessagesTurn_eq_none host R reorder).mp hturn) hlen
    | some r' =>
        obtain ⟨-, hbuffer, hunread⟩ := readMessagesTurn_eq_some host R reorder hsize hturn
        have hend : readMessagesTurn host R reorder r' = none := by
          rw [readMessagesTurn_eq_none, hunread, List.drop_of_length_le hcut.le]
          decide
        rw [readMessagesLoop_of_some host R reorder hturn,
          readMessagesLoop_of_none host R reorder hend, hbuffer, List.take_of_length_le hcut.le,
          cutPayload]

theorem readMessagesLoop_eq (r : ReadState σ) (hsize : r.size.length = 4) :
    let F := framing (headerOrder host reorder)
    readMessagesLoop host R reorder r = F.frames (R.unread r.stream) ++
      if (F.residue (R.unread r.stream)).length < 4 then []
      else [cutPayload (headerOrder host reorder) ((F.frames (R.unread r.stream)).getLastD r.buffer)
        (F.residue (R.unread r.stream))] := by
  intro F
  generalize hB : R.unread r.stream = B
  induction B using F.frames_induction generalizing r with
  | incomplete B hnext =>
      subst hB
      rw [F.frames_of_none hnext, F.residue_of_none hnext]
      exact readMessagesLoop_of_incomplete host R reorder hsize hnext
  | frame B p t hnext ih =>
      subst hB
      obtain ⟨r', hturn, hsize', hbuffer, hunread⟩ :=
        readMessagesTurn_of_frame host R reorder hsize hnext
      rw [readMessagesLoop_of_some host R reorder hturn, ih r' hsize' hunread,
        F.frames_of_some hnext, F.residue_of_some hnext, hbuffer, List.getLastD_cons,
        List.cons_append]

/-- `read_messages` calls `inbound.message` for exactly the complete frames of the stream
if and only if the stream does not end inside a payload. -/
theorem readMessages_eq_frames_iff (size : UInt32) (s : σ) :
    readMessages host R reorder size s =
        (framing (headerOrder host reorder)).frames (R.unread s) ↔
      ((framing (headerOrder host reorder)).residue (R.unread s)).length < 4 := by
  have hloop := readMessagesLoop_eq host R reorder
    ⟨ByteRepresentation.bytes host size, [], s⟩ (ByteRepresentation.length_bytes host size)
  rw [readMessages, hloop]
  refine ⟨?_, ?_⟩
  · intro h
    by_contra hcut
    simp [hcut] at h
  · intro h
    simp [h]

/-- A peer that dies one byte into a payload of three: the message is completed with the
bytes of the message before it. -/
theorem readMessages_cut_payload :
    readMessages .littleEndian .ofList false 0 [3, 0, 0, 0, 1, 2, 3, 3, 0, 0, 0, 9] =
        [[1, 2, 3], [9, 2, 3]] ∧
      (framing .littleEndian).frames [3, 0, 0, 0, 1, 2, 3, 3, 0, 0, 0, 9] = [[1, 2, 3]] := by
  have hframes : (framing .littleEndian).frames [3, 0, 0, 0, 1, 2, 3, 3, 0, 0, 0, 9] = [[1, 2, 3]] ∧
      (framing .littleEndian).residue [3, 0, 0, 0, 1, 2, 3, 3, 0, 0, 0, 9] = [3, 0, 0, 0, 9] :=
    (framing .littleEndian).frames_eq_of_append (by decide) (by decide) (by decide)
  have hloop := readMessagesLoop_eq .littleEndian .ofList false
    ⟨ByteRepresentation.bytes .littleEndian 0, [], [3, 0, 0, 0, 1, 2, 3, 3, 0, 0, 0, 9]⟩ (by decide)
  refine ⟨?_, hframes.1⟩
  rw [readMessages, hloop]
  simp only [headerOrder, Bool.false_eq_true, if_false, ReadFunction.ofList, hframes.1, hframes.2]
  decide

end CohesionIpc
