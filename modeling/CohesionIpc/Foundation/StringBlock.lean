import Mathlib.Data.List.TakeWhile

/-! Blocks of strings in memory: each string has a terminator behind it, and an empty string ends
the block. -/

namespace CohesionIpc.Text

variable {α : Type*} [DecidableEq α] {z : α} {ss : List (List α)} {rest : List α}

/-- The strings of a block, up to the one that ends it. -/
def blockStrings (z : α) (block : List α) : List (List α) :=
  (block.splitOn z).takeWhile (· ≠ [])

/-- Strings with their terminators. -/
def terminated (z : α) (ss : List (List α)) : List α := ss.flatMap (· ++ [z])

omit [DecidableEq α] in
theorem terminated_cons (s : List α) (ss : List (List α)) :
    terminated z (s :: ss) = s ++ z :: terminated z ss := by
  rw [terminated, List.flatMap_cons, List.append_assoc]
  rfl

omit [DecidableEq α] in
theorem terminated_append (ss ss' : List (List α)) :
    terminated z (ss ++ ss') = terminated z ss ++ terminated z ss' :=
  List.flatMap_append

theorem splitOn_terminated (ss : List (List α)) (rest : List α) :
    (terminated z ss ++ rest).splitOn z = ss.flatMap (List.splitOn z) ++ rest.splitOn z := by
  induction ss with
  | nil => rfl
  | cons s ss ih =>
      rw [terminated_cons, List.append_assoc, List.cons_append, List.splitOn_append_cons_self, ih,
        List.flatMap_cons, List.append_assoc]

/-- Terminators inside the strings cut them, and the first empty piece ends the block. -/
theorem blockStrings_terminated (ss : List (List α)) (rest : List α) :
    blockStrings z (terminated z ss ++ z :: rest) =
      (ss.flatMap (List.splitOn z)).takeWhile (· ≠ []) := by
  have hend : (z :: rest).splitOn z = [] :: rest.splitOn z :=
    List.splitOn_append_cons_self [] rest
  rw [blockStrings, splitOn_terminated, hend]
  generalize ss.flatMap (List.splitOn z) = pieces
  induction pieces with
  | nil => rfl
  | cons p pieces ih =>
      rw [List.cons_append, List.takeWhile_cons, List.takeWhile_cons, ih]

theorem flatMap_splitOn_of_notMem (hss : ∀ s ∈ ss, z ∉ s) : ss.flatMap (List.splitOn z) = ss := by
  induction ss with
  | nil => rfl
  | cons s ss ih =>
      rw [List.flatMap_cons, List.splitOn_eq_singleton (hss s List.mem_cons_self),
        ih fun s hs => hss s (List.mem_cons_of_mem _ hs)]
      rfl

theorem notMem_of_mem_splitOn {s p : List α} (hp : p ∈ s.splitOn z) : z ∉ p := by
  induction s generalizing p with
  | nil =>
      rw [List.splitOn_nil, List.mem_singleton] at hp
      rw [hp]
      exact List.not_mem_nil
  | cons c s ih =>
      rw [List.splitOn_cons_eq_if_modifyHead] at hp
      split at hp
      · rcases List.mem_cons.mp hp with rfl | hp
        · exact List.not_mem_nil
        · exact ih hp
      · rename_i hc
        obtain ⟨q, qs, hq⟩ := List.exists_cons_of_ne_nil (List.splitOn_ne_nil z s)
        rw [hq] at hp ih
        rcases List.mem_cons.mp hp with rfl | hp
        · rw [List.mem_cons, not_or]
          refine ⟨?_, ih List.mem_cons_self⟩
          rintro rfl
          exact hc (beq_self_eq_true _)
        · exact ih (List.mem_cons_of_mem _ hp)

theorem of_mem_blockStrings {block p : List α} (hp : p ∈ blockStrings z block) :
    p ≠ [] ∧ z ∉ p := by
  have hne := List.mem_takeWhile_imp (p := (· ≠ [])) hp
  exact ⟨of_decide_eq_true hne, notMem_of_mem_splitOn ((List.takeWhile_prefix _).subset hp)⟩

/-- Strings are read back if and only if none is empty or has a terminator in it. -/
theorem blockStrings_terminated_eq_iff :
    blockStrings z (terminated z ss ++ z :: rest) = ss ↔ ∀ s ∈ ss, s ≠ [] ∧ z ∉ s := by
  constructor
  · intro h s hs
    rw [← h] at hs
    exact of_mem_blockStrings hs
  · intro h
    rw [blockStrings_terminated, flatMap_splitOn_of_notMem fun s hs => (h s hs).2,
      List.takeWhile_eq_self_iff]
    exact fun s hs => decide_eq_true (h s hs).1

end CohesionIpc.Text
