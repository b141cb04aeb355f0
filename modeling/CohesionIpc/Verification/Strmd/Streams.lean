import CohesionIpc.Foundation.Transition
import CohesionIpc.Model.Strmd.Stream
import Mathlib.Algebra.Group.Nat.Defs

/-! What one `buffer_writer` has written, a `buffer_reader` gives back in pieces of any size,
whatever the sizes of the writes and of the calls that are refused in between. -/

namespace CohesionIpc.Strmd

open Transition

/-! ## The writer -/

theorem BufferWriter.write_eq (buffer data : List UInt8) : write buffer data = buffer ++ data := by
  unfold write
  split
  · exact List.concat_eq_append
  · rfl

theorem BufferWriter.writes_eq (buffer : List UInt8) (chunks : List (List UInt8)) :
    writes buffer chunks = chunks.flatten := by
  have hfold : ∀ start : List UInt8, chunks.foldl write start = start ++ chunks.flatten := by
    induction chunks with
    | nil => simp
    | cons chunk chunks ih =>
        intro start
        rw [List.foldl_cons, write_eq, ih, List.flatten_cons, List.append_assoc]
  exact hfold []

/-! ## One call -/

variable {w : ℕ} {payload data : List UInt8} {r : BufferReader w} {size : BitVec w}

/-- What a reader has not handed out yet. -/
def BufferReader.unread (payload : List UInt8) (r : BufferReader w) : List UInt8 :=
  payload.drop r.ptr

/-- The position and the remaining count make up the whole range. -/
def BufferReader.Within (payload : List UInt8) (r : BufferReader w) : Prop :=
  r.ptr + r.remaining.toNat = payload.length

/-- The caller's memory when a call has obtained its bytes from the front of `unread`. -/
def ReaderCall.filled (c : ReaderCall w) (unread : List UInt8) : List UInt8 :=
  match c with
  | .read size data _ => Buffer.overwrite data (unread.take size.toNat)
  | .skip _ => []

/-- The loop of `read` inside both ranges, with `done` behind the destination pointer. -/
theorem BufferReader.copy_eq {n src : ℕ} {done room : List UInt8}
    (hsrc : src + n ≤ payload.length) (hroom : n ≤ room.length) :
    copy payload n src done.length (done ++ room) =
      some (src + n, done ++ ((payload.drop src).take n ++ room.drop n)) := by
  induction n generalizing src done room with
  | zero => simp [copy]
  | succ n ih =>
      cases room with
      | nil => simp at hroom
      | cons b room =>
          have hlt : src < payload.length := by omega
          have hdest : done.length < (done ++ b :: room).length := by simp
          have hset : (done ++ b :: room).set done.length payload[src] =
              (done ++ [payload[src]]) ++ room := by simp
          have hlen : done.length + 1 = (done ++ [payload[src]]).length := by simp
          simp only [copy, List.getElem?_eq_getElem hlt, if_pos hdest, hset, hlen]
          rw [ih (by omega) (by simpa using hroom), List.drop_eq_getElem_cons hlt,
            List.take_succ_cons, List.drop_succ_cons, Nat.add_right_comm, Nat.add_assoc]
          simp

/-- `read` hands out the bytes that come next, or refuses and touches nothing. -/
theorem BufferReader.read_eq (hr : r.Within payload) (hfits : size.toNat ≤ data.length) :
    r.read payload size data =
      if size.toNat ≤ r.remaining.toNat then
        some ⟨⟨r.ptr + size.toNat, r.remaining - size⟩,
          Buffer.overwrite data ((r.unread payload).take size.toNat), none⟩
      else some ⟨r, data, some ⟨size, r.remaining⟩⟩ := by
  by_cases hle : size.toNat ≤ r.remaining.toNat
  · have hsize : ¬size > r.remaining := by
      rw [gt_iff_lt, BitVec.lt_def]
      omega
    have hsrc : r.ptr + size.toNat ≤ payload.length := by
      rw [← hr]
      omega
    have hcopy := @copy_eq payload size.toNat r.ptr [] data hsrc hfits
    have htake : ((r.unread payload).take size.toNat).length = size.toNat := by
      rw [unread, List.length_take, List.length_drop]
      omega
    rw [List.nil_append, List.length_nil] at hcopy
    rw [read, if_neg hsize, if_pos hle, hcopy, Buffer.overwrite, htake]
    rfl
  · have hsize : size > r.remaining := by
      rw [gt_iff_lt, BitVec.lt_def]
      omega
    rw [read, if_pos hsize, if_neg hle]

theorem BufferReader.skip_eq (hr : r.Within payload) :
    r.skip payload size =
      if size.toNat ≤ r.remaining.toNat then
        some ⟨⟨r.ptr + size.toNat, r.remaining - size⟩, [], none⟩
      else some ⟨r, [], some ⟨size, r.remaining⟩⟩ := by
  by_cases hle : size.toNat ≤ r.remaining.toNat
  · have hsize : ¬size > r.remaining := by
      rw [gt_iff_lt, BitVec.lt_def]
      omega
    have hend : r.ptr + size.toNat ≤ payload.length := by
      rw [← hr]
      omega
    rw [skip, if_neg hsize, if_pos hend, if_pos hle]
  · have hsize : size > r.remaining := by
      rw [gt_iff_lt, BitVec.lt_def]
      omega
    rw [skip, if_pos hsize, if_neg hle]

/-! ## Every call -/

/-- What a call does to a reader and to the caller's memory. -/
structure ReadsBack (payload : List UInt8) (s : ReaderCalled w) (c : ReaderCall w)
    (t : ReaderCalled w) : Prop where
  within : s.reader.Within payload
  within_after : t.reader.Within payload
  /-- A call that asks for no more than is left gets the next bytes. -/
  obtained : c.size.toNat ≤ (s.reader.unread payload).length →
    t.raised = none ∧ t.data = c.filled (s.reader.unread payload) ∧
      t.reader.ptr = s.reader.ptr + c.size.toNat ∧
      t.reader.remaining.toNat = s.reader.remaining.toNat - c.size.toNat
  /-- Any other call says what was requested and what is left, and changes nothing. -/
  refused : (s.reader.unread payload).length < c.size.toNat →
    (∃ e, t.raised = some e ∧ e.requested = c.size ∧
      e.available.toNat = (s.reader.unread payload).length) ∧
      t.data = c.data ∧ t.reader = s.reader

theorem BufferReader.length_unread (hr : r.Within payload) :
    (r.unread payload).length = r.remaining.toNat := by
  rw [unread, List.length_drop, ← hr, Nat.add_sub_cancel_left]

/-- Both kinds of calls have one shape. -/
theorem BufferReader.step_eq {s : ReaderCalled w} (hs : s.reader.Within payload)
    (c : ReaderCall w) :
    step payload s c =
      if c.size.toNat ≤ s.reader.remaining.toNat then
        some ⟨⟨s.reader.ptr + c.size.toNat, s.reader.remaining - c.size⟩,
          c.filled (s.reader.unread payload), none⟩
      else some ⟨s.reader, c.data, some ⟨c.size, s.reader.remaining⟩⟩ := by
  cases c with
  | read size data fits => exact read_eq hs fits
  | skip size => exact skip_eq hs

theorem BufferReader.step_readsBack {s t : ReaderCalled w} {c : ReaderCall w}
    (hs : s.reader.Within payload) (ht : step payload s c = some t) :
    ReadsBack payload s c t := by
  have hunread := length_unread hs
  rw [step_eq hs] at ht
  split at ht
  · rename_i hle
    cases ht
    have hsub : (s.reader.remaining - c.size).toNat =
        s.reader.remaining.toNat - c.size.toNat :=
      BitVec.toNat_sub_of_le (BitVec.le_def.mpr hle)
    refine ⟨hs, ?_, ?_, ?_⟩
    · change s.reader.ptr + c.size.toNat + (s.reader.remaining - c.size).toNat = payload.length
      rw [hsub, ← hs]
      omega
    · exact fun _ => ⟨rfl, rfl, rfl, hsub⟩
    · intro hlt
      omega
  · rename_i hlt
    cases ht
    refine ⟨hs, hs, ?_, ?_⟩
    · intro hle
      omega
    · exact fun _ => ⟨⟨_, rfl, rfl, hunread.symm⟩, rfl, rfl⟩

theorem BufferReader.run_isSome {s : ReaderCalled w} (hs : s.reader.Within payload)
    (calls : List (ReaderCall w)) : (run (step payload) s calls).isSome := by
  induction calls generalizing s with
  | nil => rfl
  | cons c calls ih =>
      obtain ⟨t, ht⟩ : ∃ t, step payload s c = some t := by
        rw [step_eq hs]
        split <;> exact ⟨_, rfl⟩
      rw [run_cons, ht]
      exact ih (step_readsBack hs ht).within_after

/-- A reader over what a writer has written never leaves the range, whatever is called. -/
theorem reads_back {w : ℕ} (buffer : List UInt8) (chunks : List (List UInt8))
    (hfits : chunks.flatten.length < 2 ^ w) (calls : List (ReaderCall w)) :
    let payload := BufferWriter.writes buffer chunks
    payload = chunks.flatten ∧
      (run (BufferReader.step payload) (BufferReader.init payload) calls).isSome ∧
      Through (BufferReader.step payload) (ReadsBack payload) (BufferReader.init payload)
        calls := by
  intro payload
  have hpayload : payload = chunks.flatten := BufferWriter.writes_eq buffer chunks
  have hinit : (BufferReader.init payload : ReaderCalled w).reader.Within payload := by
    simp only [BufferReader.Within, BufferReader.init, BufferReader.construct, Nat.zero_add]
    rw [BitVec.toNat_ofNat, hpayload]
    exact Nat.mod_eq_of_lt hfits
  refine ⟨hpayload, BufferReader.run_isSome hinit calls, ?_⟩
  apply through_of_step (fun s => s.reader.Within payload) ?_ hinit calls
  intro s c t hs ht
  have hcall := BufferReader.step_readsBack hs ht
  exact ⟨hcall.within_after, hcall⟩

/-- Three writes, and calls of which the second asks for more than is left. -/
theorem reads_back_abcd :
    [[1], [], [2, 3, 4]].flatten.length < 2 ^ 64 ∧
      (let payload := BufferWriter.writes [9] [[1], [], [2, 3, 4]]
      Through (BufferReader.step payload) (ReadsBack payload)
        (BufferReader.init payload : ReaderCalled 64)
        [.read 3 [0, 0, 0] (by decide), .read 2 [7, 7] (by decide), .skip 1]) :=
  ⟨by decide, (reads_back [9] [[1], [], [2, 3, 4]] (by decide)
    [.read 3 [0, 0, 0] (by decide), .read 2 [7, 7] (by decide), .skip 1]).2.2⟩

end CohesionIpc.Strmd
