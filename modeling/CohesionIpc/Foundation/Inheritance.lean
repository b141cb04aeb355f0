import Mathlib.Data.List.Basic
import Mathlib.Logic.Function.Basic

/-! The handles of a process, and those that the processes it starts get from it: a copy of every
handle that can be inherited when they are started. -/

namespace CohesionIpc

/-- `own h` says whether an open handle can be inherited, and `given q h` whether the process `q`
has a copy of it. Processes are numbered in the order in which they are started. -/
structure HandleTables (η : Type*) where
  own : η → Option Bool
  given : ℕ → η → Bool
  processes : ℕ

namespace HandleTables

variable {η : Type*} [DecidableEq η] {t : HandleTables η} {h h' : η} {q q' : ℕ}

/-- Nobody has a handle. -/
def empty : HandleTables η where
  own _ := none
  given _ _ := false
  processes := 0

/-- A new handle, which cannot be inherited. -/
def create (t : HandleTables η) (h : η) : HandleTables η :=
  { t with own := Function.update t.own h (some false) }

/-- Nothing changes where the handle is not open. -/
def setInherit (t : HandleTables η) (h : η) : HandleTables η :=
  { t with own := Function.update t.own h ((t.own h).map fun _ => true) }

def close (t : HandleTables η) (h : η) : HandleTables η :=
  { t with own := Function.update t.own h none }

omit [DecidableEq η] in
/-- The new process gets what can be inherited. -/
def start (t : HandleTables η) : HandleTables η :=
  { t with
    given := Function.update t.given t.processes fun h => decide (t.own h = some true)
    processes := t.processes + 1 }

/-- A process closes its copy of a handle. -/
def closeGiven (t : HandleTables η) (q : ℕ) (h : η) : HandleTables η :=
  { t with given := Function.update t.given q (Function.update (t.given q) h false) }

omit [DecidableEq η] in
def exit (t : HandleTables η) (q : ℕ) : HandleTables η :=
  { t with given := Function.update t.given q fun _ => false }

/-- Nobody has the handle. -/
def Gone (t : HandleTables η) (h : η) : Prop :=
  t.own h = none ∧ ∀ q < t.processes, t.given q h = false

omit [DecidableEq η] in
instance (t : HandleTables η) (h : η) : Decidable (t.Gone h) :=
  inferInstanceAs (Decidable (_ ∧ ∀ q < t.processes, t.given q h = false))

/-! ## The process itself -/

@[simp] theorem own_create_self : (t.create h).own h = some false := Function.update_self _ _ _

theorem own_create_of_ne (hne : h' ≠ h) : (t.create h).own h' = t.own h' :=
  Function.update_of_ne hne _ _

@[simp] theorem own_setInherit_self : (t.setInherit h).own h = (t.own h).map fun _ => true :=
  Function.update_self _ _ _

theorem own_setInherit_of_ne (hne : h' ≠ h) : (t.setInherit h).own h' = t.own h' :=
  Function.update_of_ne hne _ _

@[simp] theorem own_close_self : (t.close h).own h = none := Function.update_self _ _ _

theorem own_close_of_ne (hne : h' ≠ h) : (t.close h).own h' = t.own h' :=
  Function.update_of_ne hne _ _

/-! ## The processes that it starts -/

omit [DecidableEq η] in
theorem given_start_self : t.start.given t.processes h = decide (t.own h = some true) := by
  simp only [start, Function.update_self]

omit [DecidableEq η] in
theorem given_start_of_ne (hne : q ≠ t.processes) : t.start.given q h = t.given q h := by
  simp only [start, Function.update_of_ne hne]

theorem given_of_closeGiven (hg : (t.closeGiven q' h').given q h = true) : t.given q h = true := by
  by_cases hq : q = q'
  · subst hq
    by_cases hh : h = h'
    · subst hh
      simp [closeGiven] at hg
    · simpa [closeGiven, Function.update_of_ne hh] using hg
  · simpa [closeGiven, Function.update_of_ne hq] using hg

omit [DecidableEq η] in
theorem given_of_exit (hg : (t.exit q').given q h = true) : q ≠ q' ∧ t.given q h = true := by
  by_cases hq : q = q'
  · subst hq
    simp [exit] at hg
  · exact ⟨hq, by simpa [exit, Function.update_of_ne hq] using hg⟩

/-! ## Handles that nobody inherits -/

/-- The handle cannot be inherited, and has not been. -/
structure Private (t : HandleTables η) (h : η) : Prop where
  own : t.own h ≠ some true
  given : ∀ q, t.given q h = false

namespace Private

variable (hp : t.Private h)
include hp

theorem create : (t.create h').Private h := by
  refine ⟨?_, hp.given⟩
  by_cases hne : h = h'
  · subst hne
    simp
  · rw [own_create_of_ne hne]
    exact hp.own

theorem setInherit (hne : h ≠ h') : (t.setInherit h').Private h :=
  ⟨by rw [own_setInherit_of_ne hne]; exact hp.own, hp.given⟩

theorem close : (t.close h').Private h := by
  refine ⟨?_, hp.given⟩
  by_cases hne : h = h'
  · subst hne
    simp
  · rw [own_close_of_ne hne]
    exact hp.own

omit [DecidableEq η] in
theorem start : t.start.Private h := by
  refine ⟨hp.own, fun q => ?_⟩
  by_cases hq : q = t.processes
  · rw [hq, given_start_self]
    exact decide_eq_false hp.own
  · rw [given_start_of_ne hq]
    exact hp.given q

theorem closeGiven : (t.closeGiven q h').Private h := by
  refine ⟨hp.own, fun q' => ?_⟩
  by_contra hne
  rw [Bool.not_eq_false] at hne
  cases (hp.given q').symm.trans (given_of_closeGiven hne)

omit [DecidableEq η] in
theorem exit : (t.exit q).Private h := by
  refine ⟨hp.own, fun q' => ?_⟩
  by_contra hne
  rw [Bool.not_eq_false] at hne
  cases (hp.given q').symm.trans (given_of_exit hne).2

end Private

end HandleTables

end CohesionIpc
