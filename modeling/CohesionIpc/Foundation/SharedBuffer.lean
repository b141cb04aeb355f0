import CohesionIpc.Foundation.Buffer
import CohesionIpc.Foundation.Transition

/-! A growable vector that is written again and again from its start, and views of what it
held at some time. A view is a place in memory: it sees later writes to that place, and
nothing once the vector has moved to another one. -/

namespace CohesionIpc

variable {β : Type*}

/-- The block the vector is in, and every cell of it. A block is not used again when the
vector has left it. -/
structure SharedBuffer (β : Type*) where
  block : ℕ
  cells : List β

/-- A range at the start of a block. -/
structure View where
  block : ℕ
  length : ℕ
deriving DecidableEq

namespace SharedBuffer

def empty : SharedBuffer β := ⟨0, []⟩

/-- Clears the vector and appends `bytes`. Where they do not fit they end up in another
block, with `spare` cells behind them. -/
def rewrite (v : SharedBuffer β) (spare bytes : List β) : SharedBuffer β :=
  if bytes.length ≤ v.cells.length then { v with cells := Buffer.overwrite v.cells bytes }
  else ⟨v.block + 1, bytes ++ spare⟩

/-- The range of the first `n` elements. -/
def view (v : SharedBuffer β) (n : ℕ) : View := ⟨v.block, n⟩

/-- What can be read through a view. -/
def read? (v : SharedBuffer β) (w : View) : Option (List β) :=
  if w.block = v.block then some (v.cells.take w.length) else none

variable {v : SharedBuffer β}

theorem read?_rewrite_view (spare bytes : List β) :
    (v.rewrite spare bytes).read? ((v.rewrite spare bytes).view bytes.length) = some bytes := by
  rw [read?, view, if_pos rfl, rewrite]
  split
  · rw [Buffer.overwrite, List.take_left]
  · rw [List.take_left]

/-- Two sequences are the same as far as both go. -/
def Coincide (bytes bytes' : List β) : Prop :=
  bytes.take bytes'.length = bytes'.take bytes.length

/-- What a view holds survives a write exactly when the write stays in the block and puts
there what was there before. -/
theorem read?_rewrite_iff {w : View} {old : List β} (h : v.read? w = some old)
    (hlength : w.length = old.length) (spare bytes : List β) :
    (v.rewrite spare bytes).read? w = some old ↔
      bytes.length ≤ v.cells.length ∧ Coincide bytes old := by
  rw [read?, Option.ite_none_right_eq_some, Option.some.injEq, hlength] at h
  rcases h with ⟨hblock, hold⟩
  by_cases hfits : bytes.length ≤ v.cells.length
  · rw [rewrite, if_pos hfits, read?, if_pos hblock, Option.some.injEq, hlength]
    simp only [hfits, true_and]
    rw [Buffer.overwrite, List.take_append, Coincide]
    -- behind the bytes written the block is as it was
    have hrest : (v.cells.drop bytes.length).take (old.length - bytes.length) =
        old.drop bytes.length := by
      rw [← List.drop_take, hold]
    rw [hrest]
    constructor
    · intro heq
      have htake := congrArg (List.take bytes.length) heq
      have hfront : (bytes.take old.length).take bytes.length = bytes.take old.length :=
        List.take_of_length_le (by rw [List.length_take]; exact Nat.min_le_right _ _)
      rw [← htake, List.take_append, hfront, List.length_take]
      by_cases hshort : bytes.length ≤ old.length
      · rw [Nat.min_eq_right hshort, Nat.sub_self, List.take_zero, List.append_nil]
      · rw [List.drop_of_length_le (Nat.le_of_not_le hshort), List.take_nil, List.append_nil]
    · intro heq
      rw [heq, List.take_append_drop]
  · rw [rewrite, if_neg hfits, read?]
    have hne : w.block ≠ v.block + 1 := by omega
    simp [hne, hfits]

/-- Every view that has been lent still holds what it was made of. -/
def Intact (v : SharedBuffer β) (lent : List (View × List β)) : Prop :=
  ∀ x ∈ lent, x.1.length = x.2.length ∧ v.read? x.1 = some x.2

/-- Writing and lending a view of what was written keeps the other views exactly when it
goes into the same block and coincides with each of them. -/
theorem intact_rewrite_iff {lent : List (View × List β)} (h : v.Intact lent)
    (spare bytes : List β) :
    (v.rewrite spare bytes).Intact
        (((v.rewrite spare bytes).view bytes.length, bytes) :: lent) ↔
      ∀ x ∈ lent, bytes.length ≤ v.cells.length ∧ Coincide bytes x.2 := by
  constructor
  · intro hall x hx
    have hread := (hall x (List.mem_cons_of_mem _ hx)).2
    exact (read?_rewrite_iff (h x hx).2 (h x hx).1 spare bytes).mp hread
  · intro hall x hx
    rcases List.mem_cons.mp hx with rfl | hx
    · exact ⟨rfl, read?_rewrite_view spare bytes⟩
    · exact ⟨(h x hx).1, (read?_rewrite_iff (h x hx).2 (h x hx).1 spare bytes).mpr (hall x hx)⟩

/-! ## Machines that lend views -/

section

open Transition

variable {σ α : Type*} {step : σ → α → Option σ} (buffer : σ → SharedBuffer β)
  (lent : σ → List (View × List β)) (writes : σ → α → Option (List β))

/-- What is about to be written stays in the block and coincides with everything lent. -/
def Fits (s : σ) (a : α) : Prop :=
  ∀ bytes, writes s a = some bytes → ∀ x ∈ lent s,
    bytes.length ≤ (buffer s).cells.length ∧ Coincide bytes x.2

/-- A step lends a view of what it writes, or it writes nothing and views may be given
back. -/
structure Lends (s : σ) (a : α) (t : σ) : Prop where
  idle : writes s a = none → buffer t = buffer s ∧ lent t ⊆ lent s
  write : ∀ bytes, writes s a = some bytes → ∃ spare, buffer t = (buffer s).rewrite spare bytes ∧
    lent t = ((buffer t).view bytes.length, bytes) :: lent s

/-- All views stay as they were lent throughout a run exactly when whatever is written fits. -/
theorem through_intact_iff (hstep : ∀ s a t, step s a = some t → Lends buffer lent writes s a t)
    {s : σ} {as : List α} (hs : lent s = []) (hrun : (run step s as).isSome) :
    Through step (fun _ _ t => (buffer t).Intact (lent t)) s as ↔
      Along step (Fits buffer lent writes) s as := by
  apply through_iff_along_of_step fun s => (buffer s).Intact (lent s)
  · intro s a t hI hfits ht
    have hlends := hstep s a t ht
    suffices hnext : (buffer t).Intact (lent t) from ⟨hnext, hnext⟩
    cases hwrites : writes s a with
    | none =>
        rcases hlends.idle hwrites with ⟨hbuffer, hsub⟩
        rw [hbuffer]
        exact fun x hx => hI x (hsub hx)
    | some bytes =>
        rcases hlends.write bytes hwrites with ⟨spare, hbuffer, hlent⟩
        rw [hlent, hbuffer]
        exact (intact_rewrite_iff hI spare bytes).mpr (hfits bytes hwrites)
  · intro s a t hI ht hT bytes hwrites
    rcases (hstep s a t ht).write bytes hwrites with ⟨spare, hbuffer, hlent⟩
    rw [hlent, hbuffer] at hT
    exact (intact_rewrite_iff hI spare bytes).mp hT
  · rw [hs]
    exact fun x hx => absurd hx List.not_mem_nil
  · exact hrun

end

end SharedBuffer

end CohesionIpc
