import Mathlib.Data.List.Basic
import Mathlib.Data.List.Infix

/-! Length-prefixed framing over an arbitrary alphabet: a frame is a header of fixed
width that denotes a length, followed by that many symbols. -/

namespace CohesionIpc

/-- A header format. `header` and `size` are inverse between the lengths below `bound`
and the words of `width` symbols, so no header is malformed. -/
structure LengthPrefix (β : Type*) where
  width : ℕ
  bound : ℕ
  header : ℕ → List β
  size : List β → ℕ
  width_pos : 0 < width
  length_header : ∀ n, (header n).length = width
  size_header : ∀ n, n < bound → size (header n) = n
  size_lt : ∀ h, h.length = width → size h < bound
  header_size : ∀ h, h.length = width → header (size h) = h

namespace LengthPrefix

variable {β : Type*} (F : LengthPrefix β)

def frame (payload : List β) : List β := F.header payload.length ++ payload

/-- The payload of the frame that opens the stream and the stream after it, when the
stream holds that frame completely. -/
def next? (s : List β) : Option (List β × List β) :=
  let n := F.size (s.take F.width)
  if F.width ≤ s.length ∧ n ≤ (s.drop F.width).length then
    some ((s.drop F.width).take n, (s.drop F.width).drop n)
  else none

theorem next?_length {s p t : List β} (h : F.next? s = some (p, t)) : t.length < s.length := by
  have hw := F.width_pos
  simp only [next?, Option.ite_none_right_eq_some, Option.some.injEq, Prod.mk.injEq] at h
  obtain ⟨⟨hs, _⟩, _, rfl⟩ := h
  simp only [List.length_drop]
  omega

/-- The complete frames of a stream, in order. -/
def frames (s : List β) : List (List β) :=
  match _h : F.next? s with
  | none => []
  | some (p, t) => p :: frames t
termination_by s.length
decreasing_by exact F.next?_length _h

/-- What follows the last complete frame. -/
def residue (s : List β) : List β :=
  match _h : F.next? s with
  | none => s
  | some (_, t) => residue t
termination_by s.length
decreasing_by exact F.next?_length _h

@[simp] theorem length_frame (p : List β) : (F.frame p).length = F.width + p.length := by
  simp [frame, F.length_header]

theorem take_width_frame_append (p s : List β) :
    (F.frame p ++ s).take F.width = F.header p.length := by
  rw [frame, List.append_assoc, List.take_left' (F.length_header p.length)]

theorem drop_width_frame_append (p s : List β) : (F.frame p ++ s).drop F.width = p ++ s := by
  rw [frame, List.append_assoc, List.drop_left' (F.length_header p.length)]

/-! ## One frame -/

theorem next?_frame_append {p : List β} (hp : p.length < F.bound) (s : List β) :
    F.next? (F.frame p ++ s) = some (p, s) := by
  have hwidth : F.width ≤ F.width + p.length + s.length := by omega
  simp [next?, F.take_width_frame_append, F.drop_width_frame_append, F.size_header _ hp, hwidth]

/-- A stream opens with a complete frame exactly when it is that frame and a rest. -/
theorem next?_eq_some {s p t : List β} :
    F.next? s = some (p, t) ↔ p.length < F.bound ∧ s = F.frame p ++ t := by
  refine ⟨?_, ?_⟩
  · intro h
    simp only [next?, Option.ite_none_right_eq_some, Option.some.injEq, Prod.mk.injEq] at h
    obtain ⟨⟨hs, hn⟩, rfl, rfl⟩ := h
    have htake : (s.take F.width).length = F.width := List.length_take_of_le hs
    have hlen : ((s.drop F.width).take (F.size (s.take F.width))).length =
        F.size (s.take F.width) := List.length_take_of_le hn
    refine ⟨hlen.trans_lt (F.size_lt _ htake), ?_⟩
    rw [frame, hlen, F.header_size _ htake, List.append_assoc, List.take_append_drop,
      List.take_append_drop]
  · rintro ⟨hp, rfl⟩
    exact F.next?_frame_append hp t

theorem next?_eq_none {s : List β} :
    F.next? s = none ↔
      s.length < F.width ∨ (s.drop F.width).length < F.size (s.take F.width) := by
  simp only [next?, ite_eq_right_iff, reduceCtorEq, imp_false, not_and_or, not_le]

@[simp] theorem next?_nil : F.next? [] = none := by
  rw [next?_eq_none]
  exact Or.inl (by simpa using F.width_pos)

/-! ## All frames -/

theorem frames_of_none {s : List β} (h : F.next? s = none) : F.frames s = [] := by
  rw [frames]
  split
  · rfl
  · simp_all

theorem frames_of_some {s p t : List β} (h : F.next? s = some (p, t)) :
    F.frames s = p :: F.frames t := by
  rw [frames]
  split <;> simp_all

theorem residue_of_none {s : List β} (h : F.next? s = none) : F.residue s = s := by
  rw [residue]
  split
  · rfl
  · simp_all

theorem residue_of_some {s p t : List β} (h : F.next? s = some (p, t)) :
    F.residue s = F.residue t := by
  rw [residue]
  split <;> simp_all

@[simp] theorem frames_nil : F.frames [] = [] := F.frames_of_none F.next?_nil

/-- Induction on a stream frame by frame. -/
theorem frames_induction {motive : List β → Prop} (s : List β)
    (incomplete : ∀ s, F.next? s = none → motive s)
    (frame : ∀ s p t, F.next? s = some (p, t) → motive t → motive s) : motive s := by
  generalize hn : s.length = n
  induction n using Nat.strongRecOn generalizing s with
  | _ n ih =>
      cases h : F.next? s with
      | none => exact incomplete s h
      | some pair =>
          obtain ⟨p, t⟩ := pair
          exact frame s p t h (ih t.length (hn ▸ F.next?_length h) t rfl)

theorem frames_frame_append {p : List β} (hp : p.length < F.bound) (s : List β) :
    F.frames (F.frame p ++ s) = p :: F.frames s :=
  F.frames_of_some (F.next?_frame_append hp s)

theorem residue_frame_append {p : List β} (hp : p.length < F.bound) (s : List β) :
    F.residue (F.frame p ++ s) = F.residue s :=
  F.residue_of_some (F.next?_frame_append hp s)

/-- Reading resynchronises after every written frame. -/
theorem frames_flatMap_append {ps : List (List β)} (hps : ∀ p ∈ ps, p.length < F.bound)
    (s : List β) : F.frames (ps.flatMap F.frame ++ s) = ps ++ F.frames s := by
  induction ps with
  | nil => rfl
  | cons p ps ih =>
      rw [List.flatMap_cons, List.append_assoc, F.frames_frame_append (hps p (by simp)),
        ih fun q hq => hps q (by simp [hq]), List.cons_append]

theorem residue_flatMap_append {ps : List (List β)} (hps : ∀ p ∈ ps, p.length < F.bound)
    (s : List β) : F.residue (ps.flatMap F.frame ++ s) = F.residue s := by
  induction ps with
  | nil => rfl
  | cons p ps ih =>
      rw [List.flatMap_cons, List.append_assoc, F.residue_frame_append (hps p (by simp)),
        ih fun q hq => hps q (by simp [hq])]

/-- The decomposition into complete frames and a rest without a complete frame is unique. -/
theorem frames_eq_of_append {ps : List (List β)} {s t : List β}
    (hps : ∀ p ∈ ps, p.length < F.bound) (ht : F.next? t = none)
    (hs : s = ps.flatMap F.frame ++ t) : F.frames s = ps ∧ F.residue s = t := by
  subst hs
  rw [F.frames_flatMap_append hps, F.residue_flatMap_append hps, F.frames_of_none ht,
    F.residue_of_none ht]
  simp

end LengthPrefix

end CohesionIpc
