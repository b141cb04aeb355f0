import Mathlib.Algebra.Ring.Nat
import Mathlib.Data.List.Infix
import Mathlib.Order.WellFounded

/-! Runs of a labelled machine whose step is a partial function of state and label.
A label carries every choice of the environment, so a run is a list of labels. -/

namespace CohesionIpc.Transition

variable {σ α : Type*}

/-- Executes the labels in order; `none` when one of them is not enabled. -/
def run (step : σ → α → Option σ) : σ → List α → Option σ
  | s, [] => some s
  | s, a :: as => (step s a).bind fun s' => run step s' as

/-- Every label of the run is taken in a state that admits it. -/
def Along (step : σ → α → Option σ) (P : σ → α → Prop) : σ → List α → Prop
  | _, [] => True
  | s, a :: as => P s a ∧ ∀ s', step s a = some s' → Along step P s' as

/-- Every executed transition of the run is related by `T`. -/
def Through (step : σ → α → Option σ) (T : σ → α → σ → Prop) : σ → List α → Prop
  | _, [] => True
  | s, a :: as => ∀ s', step s a = some s' → T s a s' ∧ Through step T s' as

variable {step : σ → α → Option σ}

@[simp] theorem run_nil (s : σ) : run step s [] = some s := rfl

theorem run_cons (s : σ) (a : α) (as : List α) :
    run step s (a :: as) = (step s a).bind fun s' => run step s' as := rfl

theorem run_cons_eq_some {s t : σ} {a : α} {as : List α} :
    run step s (a :: as) = some t ↔ ∃ s', step s a = some s' ∧ run step s' as = some t := by
  rw [run_cons, Option.bind_eq_some_iff]

theorem run_append (s : σ) (as bs : List α) :
    run step s (as ++ bs) = (run step s as).bind fun s' => run step s' bs := by
  induction as generalizing s with
  | nil => rfl
  | cons a as ih =>
      simp only [List.cons_append, run_cons, Option.bind_assoc]
      exact congrArg _ (funext fun s' => ih s')

theorem run_append_eq_some {s t : σ} {as bs : List α} :
    run step s (as ++ bs) = some t ↔ ∃ m, run step s as = some m ∧ run step m bs = some t := by
  rw [run_append, Option.bind_eq_some_iff]

/-- The last transition of a nonempty run. -/
theorem run_concat_eq_some {s t : σ} {a : α} {as : List α} :
    run step s (as ++ [a]) = some t ↔ ∃ m, run step s as = some m ∧ step m a = some t := by
  rw [run_append_eq_some]
  simp only [run_cons_eq_some, run_nil, Option.some.injEq, exists_eq_right]

theorem along_append {P : σ → α → Prop} {s m : σ} {as bs : List α}
    (h : Along step P s (as ++ bs)) (hrun : run step s as = some m) :
    Along step P s as ∧ Along step P m bs := by
  induction as generalizing s with
  | nil =>
      cases hrun
      exact ⟨trivial, h⟩
  | cons a as ih =>
      obtain ⟨s', hs, hr⟩ := run_cons_eq_some.mp hrun
      obtain ⟨ha, hrest⟩ := h
      refine ⟨⟨ha, ?_⟩, (ih (hrest s' hs) hr).2⟩
      intro t ht
      cases hs.symm.trans ht
      exact (ih (hrest s' hs) hr).1

/-- `Along` speaks of every label of the run and the state it is taken in. -/
theorem along_iff_forall_split {P : σ → α → Prop} {s : σ} {as : List α} :
    Along step P s as ↔
      ∀ pre a post m, as = pre ++ a :: post → run step s pre = some m → P m a := by
  constructor
  · intro h pre a post m heq hrun
    rw [heq] at h
    exact (along_append h hrun).2.1
  · intro h
    induction as generalizing s with
    | nil => trivial
    | cons a as ih =>
        refine ⟨h [] a as s rfl rfl, ?_⟩
        intro s' hs
        apply ih
        intro pre b post m heq hrun
        exact h (a :: pre) b post m (by rw [heq, List.cons_append])
          (run_cons_eq_some.mpr ⟨s', hs, hrun⟩)

theorem through_append {T : σ → α → σ → Prop} {s m : σ} {as bs : List α}
    (h : Through step T s (as ++ bs)) (hrun : run step s as = some m) : Through step T m bs := by
  induction as generalizing s with
  | nil =>
      cases hrun
      exact h
  | cons a as ih =>
      obtain ⟨s', hs, hr⟩ := run_cons_eq_some.mp hrun
      exact ih (h s' hs).2 hr

theorem through_concat {T : σ → α → σ → Prop} {s t : σ} {a : α} {as : List α}
    (h : Through step T s (as ++ [a])) (hrun : run step s (as ++ [a]) = some t) :
    ∃ m, T m a t := by
  obtain ⟨m, hm, hlast⟩ := run_concat_eq_some.mp hrun
  exact ⟨m, (through_append h hm t hlast).1⟩

theorem Through.of_append {T : σ → α → σ → Prop} {s : σ} {as bs : List α}
    (h : Through step T s (as ++ bs)) : Through step T s as := by
  induction as generalizing s with
  | nil => trivial
  | cons a as ih => exact fun s' hs => ⟨(h s' hs).1, ih (h s' hs).2⟩

theorem Along.append {P : σ → α → Prop} {s : σ} {as bs : List α} (h : Along step P s as)
    (hbs : ∀ m, run step s as = some m → Along step P m bs) : Along step P s (as ++ bs) := by
  induction as generalizing s with
  | nil => exact hbs s rfl
  | cons a as ih =>
      refine ⟨h.1, fun s' hs => ih (h.2 s' hs) ?_⟩
      exact fun m hm => hbs m (run_cons_eq_some.mpr ⟨s', hs, hm⟩)

theorem along_of_forall {P : σ → α → Prop} {as : List α} (h : ∀ a ∈ as, ∀ s, P s a) (s : σ) :
    Along step P s as := by
  induction as generalizing s with
  | nil => trivial
  | cons a as ih => exact ⟨h a (by simp) s, fun s' _ => ih (fun b hb => h b (by simp [hb])) s'⟩

/-! ## Invariants -/

/-- An invariant kept by the admitted steps holds at the end of every run of them. -/
theorem run_invariant {P : σ → α → Prop} (I : σ → Prop)
    (hstep : ∀ s a s', I s → P s a → step s a = some s' → I s')
    {s t : σ} {as : List α} (hI : I s) (hP : Along step P s as) (hrun : run step s as = some t) :
    I t := by
  induction as generalizing s with
  | nil =>
      cases hrun
      exact hI
  | cons a as ih =>
      obtain ⟨s', hs, hr⟩ := run_cons_eq_some.mp hrun
      exact ih (hstep s a s' hI hP.1 hs) (hP.2 s' hs) hr

/-- An invariant kept by every step holds at the end of every run. -/
theorem run_invariant_of_step (I : σ → Prop) (hstep : ∀ s a s', I s → step s a = some s' → I s')
    {s t : σ} {as : List α} (hI : I s) (hrun : run step s as = some t) : I t := by
  induction as generalizing s with
  | nil =>
      cases hrun
      exact hI
  | cons a as ih =>
      obtain ⟨s', hs, hr⟩ := run_cons_eq_some.mp hrun
      exact ih (hstep s a s' hI hs) hr

/-- Labels that are admitted inside an invariant. -/
theorem Along.of_invariant {P Q : σ → α → Prop} (I : σ → Prop)
    (hstep : ∀ s a s', I s → P s a → step s a = some s' → I s') (hQ : ∀ s a, I s → P s a → Q s a)
    {s : σ} {as : List α} (hI : I s) (hP : Along step P s as) : Along step Q s as := by
  induction as generalizing s with
  | nil => trivial
  | cons a as ih =>
      refine ⟨hQ s a hI hP.1, ?_⟩
      exact fun s' hs => ih (hstep s a s' hI hP.1 hs) (hP.2 s' hs)

/-- Every label of a run that can be executed is taken inside the invariant. -/
theorem Along.of_run {P Q : σ → α → Prop} (I : σ → Prop)
    (hstep : ∀ s a s', I s → P s a → step s a = some s' → I s' ∧ Q s a)
    {s t : σ} {as : List α} (hI : I s) (hP : Along step P s as) (hrun : run step s as = some t) :
    Along step Q s as := by
  induction as generalizing s with
  | nil => trivial
  | cons a as ih =>
      obtain ⟨m, hm, hrest⟩ := run_cons_eq_some.mp hrun
      obtain ⟨hI', hQ⟩ := hstep s a m hI hP.1 hm
      refine ⟨hQ, fun s' hs => ?_⟩
      cases hm.symm.trans hs
      exact ih hI' (hP.2 m hm) hrest

/-- Transitions taken inside an invariant satisfy what the invariant gives for one step. -/
theorem through_of_along {P : σ → α → Prop} {T : σ → α → σ → Prop} (I : σ → Prop)
    (hstep : ∀ s a s', I s → P s a → step s a = some s' → I s' ∧ T s a s')
    {s : σ} {as : List α} (hI : I s) (hP : Along step P s as) : Through step T s as := by
  induction as generalizing s with
  | nil => trivial
  | cons a as ih =>
      intro s' hs
      obtain ⟨hI', hT⟩ := hstep s a s' hI hP.1 hs
      exact ⟨hT, ih hI' (hP.2 s' hs)⟩

theorem through_of_step {T : σ → α → σ → Prop} (I : σ → Prop)
    (hstep : ∀ s a s', I s → step s a = some s' → I s' ∧ T s a s')
    {s : σ} (hI : I s) (as : List α) : Through step T s as := by
  induction as generalizing s with
  | nil => trivial
  | cons a as ih =>
      intro s' hs
      obtain ⟨hI', hT⟩ := hstep s a s' hI hs
      exact ⟨hT, ih hI'⟩

/-- Among steps that keep to `L` and inside an invariant, let the admitted ones be exactly
those that satisfy `T`. Then a run that can be executed satisfies `T` throughout exactly
when all its steps are admitted. -/
theorem through_iff_along {L P : σ → α → Prop} {T : σ → α → σ → Prop} (I : σ → Prop)
    (hgood : ∀ s a s', I s → L s a → P s a → step s a = some s' → I s' ∧ T s a s')
    (hbad : ∀ s a s', I s → L s a → step s a = some s' → T s a s' → P s a)
    {s : σ} {as : List α} (hI : I s) (hL : Along step L s as) (hrun : (run step s as).isSome) :
    Through step T s as ↔ Along step P s as := by
  induction as generalizing s with
  | nil => exact Iff.rfl
  | cons a as ih =>
      rcases Option.isSome_iff_exists.mp hrun with ⟨t, ht⟩
      rcases run_cons_eq_some.mp ht with ⟨s', hs, hr⟩
      have htail : I s' → (Through step T s' as ↔ Along step P s' as) := fun hI' =>
        ih hI' (hL.2 s' hs) (Option.isSome_iff_exists.mpr ⟨t, hr⟩)
      constructor
      · intro hT
        have ha : P s a := hbad s a s' hI hL.1 hs (hT s' hs).1
        refine ⟨ha, ?_⟩
        intro u hu
        cases hs.symm.trans hu
        exact (htail (hgood s a s' hI hL.1 ha hs).1).mp (hT s' hs).2
      · intro hP u hu
        cases hs.symm.trans hu
        have hstep := hgood s a s' hI hL.1 hP.1 hs
        exact ⟨hstep.2, (htail hstep.1).mpr (hP.2 s' hs)⟩

/-- The same where the steps need not keep to anything. -/
theorem through_iff_along_of_step {P : σ → α → Prop} {T : σ → α → σ → Prop} (I : σ → Prop)
    (hgood : ∀ s a s', I s → P s a → step s a = some s' → I s' ∧ T s a s')
    (hbad : ∀ s a s', I s → step s a = some s' → T s a s' → P s a)
    {s : σ} {as : List α} (hI : I s) (hrun : (run step s as).isSome) :
    Through step T s as ↔ Along step P s as :=
  through_iff_along (L := fun _ _ => True) I (fun s a s' hs _ => hgood s a s' hs)
    (fun s a s' hs _ => hbad s a s' hs) hI (along_of_forall (fun _ _ _ => trivial) s) hrun

/-- A counter that goes up with the labels of one kind stays below any bound that the
number of such labels respects. -/
theorem along_count_lt (count : σ → ℕ) {counted : α → Bool}
    (hstep : ∀ s a s', step s a = some s' → count s' = count s + if counted a then 1 else 0)
    {bound : ℕ} {s : σ} {as : List α} (h : count s + as.countP counted < bound) :
    Along step (fun s a => counted a → count s + 1 < bound) s as := by
  induction as generalizing s with
  | nil => trivial
  | cons a as ih =>
      rw [List.countP_cons] at h
      refine ⟨?_, ?_⟩
      · intro ha
        rw [if_pos ha] at h
        omega
      · intro s' hs
        apply ih
        have hcount := hstep s a s' hs
        omega

theorem Along.and {P Q : σ → α → Prop} {s : σ} {as : List α} (hP : Along step P s as)
    (hQ : Along step Q s as) : Along step (fun s a => P s a ∧ Q s a) s as := by
  induction as generalizing s with
  | nil => trivial
  | cons a as ih => exact ⟨⟨hP.1, hQ.1⟩, fun s' hs => ih (hP.2 s' hs) (hQ.2 s' hs)⟩

/-! ## Progress -/

/-- While the goal is not reached some step makes the measure smaller, so a run reaches it. -/
theorem exists_run_of_measure {L : α → Prop} {I G : σ → Prop} (μ : σ → ℕ)
    (hstep : ∀ s, I s → ¬ G s → ∃ a s', L a ∧ step s a = some s' ∧ I s' ∧ μ s' < μ s) {s : σ}
    (hI : I s) : ∃ as t, (∀ a ∈ as, L a) ∧ run step s as = some t ∧ I t ∧ G t := by
  induction hn : μ s using Nat.strongRecOn generalizing s with
  | _ n ih =>
      by_cases hG : G s
      · exact ⟨[], s, fun a ha => absurd ha List.not_mem_nil, rfl, hI, hG⟩
      · obtain ⟨a, s', ha, hs, hI', hμ⟩ := hstep s hI hG
        obtain ⟨as, t, has, hrun, ht⟩ := ih (μ s') (hn ▸ hμ) hI' rfl
        refine ⟨a :: as, t, ?_, run_cons_eq_some.mpr ⟨s', hs, hrun⟩, ht⟩
        intro b hb
        rcases List.mem_cons.mp hb with rfl | hb
        · exact ha
        · exact has b hb

/-- The same with a measure in any order without infinite descent. -/
theorem exists_run_of_wellFounded {ω : Type*} [Preorder ω] [WellFoundedLT ω] {L : α → Prop}
    {I G : σ → Prop} (μ : σ → ω)
    (hstep : ∀ s, I s → ¬ G s → ∃ a s', L a ∧ step s a = some s' ∧ I s' ∧ μ s' < μ s) {s : σ}
    (hI : I s) : ∃ as t, (∀ a ∈ as, L a) ∧ run step s as = some t ∧ I t ∧ G t := by
  induction hn : μ s using WellFoundedLT.induction generalizing s with
  | ind n ih =>
      by_cases hG : G s
      · exact ⟨[], s, fun a ha => absurd ha List.not_mem_nil, rfl, hI, hG⟩
      · obtain ⟨a, s', ha, hs, hI', hμ⟩ := hstep s hI hG
        obtain ⟨as, t, has, hrun, ht⟩ := ih (μ s') (hn ▸ hμ) hI' rfl
        refine ⟨a :: as, t, ?_, run_cons_eq_some.mpr ⟨s', hs, hrun⟩, ht⟩
        intro b hb
        rcases List.mem_cons.mp hb with rfl | hb
        · exact ha
        · exact has b hb

/-- Each counted step is paid for: by the measure, or by what the steps of the run bring in. -/
theorem countP_add_le_of_cost {P : σ → α → Prop} {counted : α → Bool} (cost : α → ℕ)
    (I : σ → Prop) (μ : σ → ℕ)
    (hstep : ∀ s a s', I s → P s a → step s a = some s' →
      I s' ∧ (if counted a then 1 else 0) + μ s' ≤ μ s + cost a)
    {s t : σ} {as : List α} (hI : I s) (hP : Along step P s as) (hrun : run step s as = some t) :
    as.countP counted + μ t ≤ μ s + (as.map cost).sum := by
  induction as generalizing s with
  | nil =>
      cases hrun
      rw [List.countP_nil, Nat.zero_add, List.map_nil, List.sum_nil, Nat.add_zero]
  | cons a as ih =>
      obtain ⟨s', hs, hr⟩ := run_cons_eq_some.mp hrun
      obtain ⟨hI', hμ⟩ := hstep s a s' hI hP.1 hs
      have hrest := ih hI' (hP.2 s' hs) hr
      rw [List.countP_cons, List.map_cons, List.sum_cons]
      omega

/-- The counted steps of a run are no more than the measure has gone down. -/
theorem countP_add_le_of_measure {P : σ → α → Prop} {counted : α → Bool} (I : σ → Prop) (μ : σ → ℕ)
    (hstep : ∀ s a s', I s → P s a → step s a = some s' →
      I s' ∧ (if counted a then 1 else 0) + μ s' ≤ μ s)
    {s t : σ} {as : List α} (hI : I s) (hP : Along step P s as) (hrun : run step s as = some t) :
    as.countP counted + μ t ≤ μ s := by
  induction as generalizing s with
  | nil =>
      cases hrun
      rw [List.countP_nil, Nat.zero_add]
  | cons a as ih =>
      obtain ⟨s', hs, hr⟩ := run_cons_eq_some.mp hrun
      obtain ⟨hI', hμ⟩ := hstep s a s' hI hP.1 hs
      have hrest := ih hI' (hP.2 s' hs) hr
      rw [List.countP_cons]
      omega

end CohesionIpc.Transition
