import CohesionIpc.Foundation.Transition

/-! Two machines side by side: some labels of the concrete one stand for labels of the abstract
one, and the others are silent. -/

namespace CohesionIpc.Transition

variable {σ τ α β : Type*} {cstep : σ → α → Option σ} {astep : τ → β → Option τ}
  {label : α → Option β} {P : σ → α → Prop} {R : σ → τ → Prop}

/-- Every admitted step of the concrete machine is one of the abstract machine, or none. -/
structure Simulates (cstep : σ → α → Option σ) (astep : τ → β → Option τ) (label : α → Option β)
    (P : σ → α → Prop) (R : σ → τ → Prop) : Prop where
  silent : ∀ s t a s', R s t → P s a → label a = none → cstep s a = some s' → R s' t
  visible : ∀ s t a b s', R s t → P s a → label a = some b → cstep s a = some s' →
    ∃ t', astep t b = some t' ∧ R s' t'

/-- Every admitted step of the abstract machine can be taken by the concrete one, with silent
steps around it. -/
def Realises (cstep : σ → α → Option σ) (astep : τ → β → Option τ) (label : α → Option β)
    (Q : τ → β → Prop) (R : σ → τ → Prop) : Prop :=
  ∀ s t b t', R s t → Q t b → astep t b = some t' →
    ∃ as s', as.filterMap label = [b] ∧ run cstep s as = some s' ∧ R s' t'

/-- A run of the concrete machine is one of the abstract machine, without the silent labels. -/
theorem Simulates.run (h : Simulates cstep astep label P R) {s s' : σ} {t : τ} {as : List α}
    (hR : R s t) (hP : Along cstep P s as) (hrun : run cstep s as = some s') :
    ∃ t', Transition.run astep t (as.filterMap label) = some t' ∧ R s' t' := by
  induction as generalizing s t with
  | nil =>
      cases hrun
      exact ⟨t, rfl, hR⟩
  | cons a as ih =>
      obtain ⟨m, hm, hrest⟩ := run_cons_eq_some.mp hrun
      cases hlabel : label a with
      | none =>
          rw [List.filterMap_cons_none hlabel]
          exact ih (h.silent s t a m hR hP.1 hlabel hm) (hP.2 m hm) hrest
      | some b =>
          obtain ⟨u, hu, hR'⟩ := h.visible s t a b m hR hP.1 hlabel hm
          obtain ⟨t', ht', hend⟩ := ih hR' (hP.2 m hm) hrest
          rw [List.filterMap_cons_some hlabel]
          exact ⟨t', run_cons_eq_some.mpr ⟨u, hu, ht'⟩, hend⟩

/-- Where the concrete machine keeps a property in the steps that the abstract machine takes as `B`
says, and loses it in all others, it is left with the property after a run all of whose abstract
steps are so taken. -/
theorem Simulates.holds_iff (h : Simulates cstep astep label P R) {Q : σ → Prop}
    {B : τ → β → Prop}
    (hsilent : ∀ s a s', label a = none → cstep s a = some s' → (Q s' ↔ Q s))
    (hvisible : ∀ s t a b s', R s t → label a = some b → cstep s a = some s' →
      (Q s' ↔ Q s ∧ B t b))
    {s s' : σ} {t : τ} {as : List α} (hR : R s t) (hP : Along cstep P s as)
    (hrun : Transition.run cstep s as = some s') :
    Q s' ↔ Q s ∧ Along astep B t (as.filterMap label) := by
  induction as generalizing s t with
  | nil =>
      cases hrun
      exact (and_iff_left trivial).symm
  | cons a as ih =>
      obtain ⟨m, hm, hrest⟩ := run_cons_eq_some.mp hrun
      cases hlabel : label a with
      | none =>
          rw [List.filterMap_cons_none hlabel, ← hsilent s a m hlabel hm]
          exact ih (h.silent s t a m hR hP.1 hlabel hm) (hP.2 m hm) hrest
      | some b =>
          obtain ⟨u, hu, hR'⟩ := h.visible s t a b m hR hP.1 hlabel hm
          have hone : Along astep B u (as.filterMap label) ↔
              ∀ v, astep t b = some v → Along astep B v (as.filterMap label) := by
            rw [hu]
            exact ⟨fun hu v hv => Option.some.inj hv ▸ hu, fun hall => hall u rfl⟩
          rw [List.filterMap_cons_some hlabel, ih hR' (hP.2 m hm) hrest,
            hvisible s t a b m hR hlabel hm, and_assoc, hone]
          rfl

/-- A run of the abstract machine is one of the concrete machine, with silent labels put in. -/
theorem Realises.run {Q : τ → β → Prop} (h : Realises cstep astep label Q R) {s : σ} {t t' : τ}
    {bs : List β} (hR : R s t) (hQ : Along astep Q t bs) (hrun : run astep t bs = some t') :
    ∃ as s', as.filterMap label = bs ∧ Transition.run cstep s as = some s' ∧ R s' t' := by
  induction bs generalizing s t with
  | nil =>
      cases hrun
      exact ⟨[], s, rfl, rfl, hR⟩
  | cons b bs ih =>
      obtain ⟨u, hu, hrest⟩ := run_cons_eq_some.mp hrun
      obtain ⟨as, m, has, hm, hR'⟩ := h s t b u hR hQ.1 hu
      obtain ⟨as', s', has', hs', hend⟩ := ih hR' (hQ.2 u hu) hrest
      refine ⟨as ++ as', s', ?_, run_append_eq_some.mpr ⟨m, hm, hs'⟩, hend⟩
      rw [List.filterMap_append, has, has', List.singleton_append]

theorem Along.cons {step : σ → α → Option σ} {s s' : σ} {a : α} {as : List α} (ha : P s a)
    (hs : step s a = some s') (has : Along step P s' as) : Along step P s (a :: as) := by
  refine ⟨ha, ?_⟩
  intro t ht
  cases hs.symm.trans ht
  exact has

/-- What no step makes true again holds along a run at the end of which it holds. -/
theorem along_of_end {step : σ → α → Option σ} {Q : σ → Prop}
    (hback : ∀ s a s', step s a = some s' → Q s' → Q s) {s t : σ} {as : List α}
    (hrun : run step s as = some t) (hQ : Q t) :
    Q s ∧ Along step (fun s a => ∀ s', step s a = some s' → Q s') s as := by
  induction as generalizing s with
  | nil =>
      cases hrun
      exact ⟨hQ, trivial⟩
  | cons a as ih =>
      obtain ⟨m, hm, hrest⟩ := run_cons_eq_some.mp hrun
      obtain ⟨hQm, halong⟩ := ih hrest
      refine ⟨hback s a m hm hQm, ?_, ?_⟩
      · intro s' hs
        cases hm.symm.trans hs
        exact hQm
      · intro s' hs
        cases hm.symm.trans hs
        exact halong

end CohesionIpc.Transition
