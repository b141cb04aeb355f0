import CohesionIpc.Verification.CancellableRead.Win32

/-! Progress of `cancellable_read` on Windows: a `cancel` that has been called gets a pending read
aborted, and nobody waits for the peer after it. -/

namespace CohesionIpc.CancellableRead.Win32

open Transition

/-- A call under way goes on. A `cancel` that has to try again does not. -/
def Label.continues : Label → Bool
  | .firstSection | .platformRead | .platformReturn _ | .lastSection | .closeHandle
  | .cancelReturn _ => true
  | .cancelSection _ answer => answer
  | .openThread | .cancelCall _ => false

/-- It is the peer that ends a `platform.read` that has not been aborted. -/
def ByPeer (s : State) (a : Label) : Prop :=
  (∃ bytes, a = .platformReturn bytes) ∧ ∃ h, s.reader = .reading h false

/-- No call under way can go on without the peer. -/
def Stuck (s : State) : Prop :=
  ∀ a : Label, a.continues = true → ¬ByPeer s a → step s a = none

/-- A thread that has set `_cancelled` is in its loop as long as a read may block. -/
structure Chased (s : State) : Prop where
  inv : Inv s
  chased : s.cancelled = true → s.reader.mayBlock = true → ∃ k, s.cancellers k = .retrying

theorem chased_init : Chased init := ⟨inv_init, fun h => by cases h⟩

theorem update_retrying {f : ℕ → Canceller} {k j : ℕ} {c : Canceller} (hk : f k ≠ .retrying)
    (h : f j = .retrying) : Function.update f k c j = .retrying := by
  have hne : j ≠ k := by
    rintro rfl
    exact hk h
  rw [Function.update_of_ne hne]
  exact h

variable {s s' : State} {a : Label}

theorem chased_step (hs : Chased s) (ha : step s a = some s') : Chased s' := by
  have hstep := step_cases ha
  refine ⟨inv_step hs.inv hstep, ?_⟩
  intro hcancelled hblock
  cases hstep with
  | openThread | refused | platformReturn | lastSection | closeHandle | abort => cases hblock
  | registered h hc => cases hc.symm.trans hcancelled
  | platformRead h => exact hs.chased hcancelled (by rw [h]; rfl)
  | noRead k answer hnone =>
      have hsection : s.reader.sectionHandle = none := hs.inv.handle.symm.trans hnone
      cases (mayBlock_eq_false_of_sectionHandle hsection).symm.trans hblock
  | retry k => exact ⟨k, Function.update_self _ _ _⟩
  | cancelCall k =>
      obtain ⟨j, hj⟩ := hs.chased hcancelled hblock
      refine ⟨j, update_retrying ?_ hj⟩
      intro hk
      simp [step, hk] at ha
  | cancelReturn k hk =>
      obtain ⟨j, hj⟩ := hs.chased hcancelled hblock
      exact ⟨j, update_retrying (by rw [hk]; decide) hj⟩

theorem chased_run {labels : List Label} (hrun : run step init labels = some s) : Chased s :=
  run_invariant_of_step Chased (fun _ _ _ hs ha => chased_step hs ha) chased_init hrun

/-! ## Where it comes to a halt -/

/-- Nobody is inside `cancel`, and nobody is inside `read` but for a peer that is still waited for,
which no `cancel` has been called to end. -/
structure Resting (s : State) : Prop where
  cancellers : ∀ k, s.cancellers k = .outside
  reader : s.reader = .outside ∨ ∃ h, s.reader = .reading h false ∧ s.cancelled = false

/-- Within its sections a read goes on, or waits in `platform.read`. -/
theorem Stuck.reading (h : Stuck s) {handle : ℕ} (hsection : s.reader.sectionHandle = some handle) :
    s.reader = .reading handle false := by
  cases hr : s.reader with
  | outside | opened | leaving =>
      rw [hr] at hsection
      cases hsection
  | registered =>
      have hreads := h .platformRead rfl (by simp [ByPeer])
      simp [step, hr] at hreads
  | finished =>
      have hlast := h .lastSection rfl (by simp [ByPeer])
      simp [step, hr] at hlast
  | reading handle' aborted =>
      rw [hr] at hsection
      cases hsection
      cases aborted with
      | false => rfl
      | true =>
          have hreturns := h (.platformReturn 0) rfl (by simp [ByPeer, hr])
          simp [step, hr] at hreturns

theorem Stuck.canceller (h : Stuck s) (hs : Chased s) (k : ℕ) : s.cancellers k = .outside := by
  have hsome : (cancelSection s k true).isSome := by
    cases hhandle : s.threadHandle with
    | none => simp [cancelSection, hhandle]
    | some handle =>
        -- the read that is registered waits in `platform.read`, and so can be aborted
        have hr := h.reading (hs.inv.handle.symm.trans hhandle)
        simp [cancelSection, hhandle, hr, Reader.abort]
  obtain ⟨t, ht⟩ := Option.isSome_iff_exists.mp hsome
  have hsection := h (.cancelSection k true) rfl (by simp [ByPeer])
  cases hk : s.cancellers k with
  | outside => rfl
  | entered | retrying => simp [step, hk, ht] at hsection
  | broke =>
      have hreturns := h (.cancelReturn k) rfl (by simp [ByPeer])
      simp [step, hk] at hreturns

theorem Stuck.resting (h : Stuck s) (hs : Chased s) : Resting s := by
  have hcancellers := h.canceller hs
  refine ⟨hcancellers, ?_⟩
  cases hr : s.reader with
  | outside => exact .inl rfl
  | opened =>
      have hfirst := h .firstSection rfl (by simp [ByPeer])
      simp only [step, hr] at hfirst
      split at hfirst <;> cases hfirst
  | leaving =>
      have hcloses := h .closeHandle rfl (by simp [ByPeer])
      simp [step, hr] at hcloses
  | registered handle | reading handle | finished handle =>
      have hsection : s.reader.sectionHandle = some handle := by rw [hr]; rfl
      have hreading := h.reading hsection
      refine .inr ⟨handle, hr.symm.trans hreading, ?_⟩
      by_contra hcancelled
      rw [Bool.not_eq_false] at hcancelled
      obtain ⟨k, hk⟩ := hs.chased hcancelled (by rw [hreading]; rfl)
      cases (hcancellers k).symm.trans hk

theorem Resting.stuck (h : Resting s) : Stuck s := by
  intro a ha hpeer
  cases a with
  | openThread | cancelCall => cases ha
  | cancelSection k | cancelReturn k => simp [step, h.cancellers k]
  | platformReturn bytes =>
      rcases h.reader with hr | ⟨handle, hr, -⟩
      · simp [step, hr]
      · exact absurd ⟨⟨bytes, rfl⟩, handle, hr⟩ hpeer
  | firstSection | platformRead | lastSection | closeHandle =>
      rcases h.reader with hr | ⟨handle, hr, -⟩ <;> simp [step, hr]

/-! ## What is left to do -/

def Label.ofReader : Label → Bool
  | .firstSection | .platformRead | .platformReturn _ | .lastSection | .closeHandle => true
  | .openThread | .cancelCall _ | .cancelSection _ _ | .cancelReturn _ => false

/-- A call of `read` takes five steps. -/
def Label.readCost : Label → ℕ
  | .openThread => 5
  | _ => 0

def Reader.stepsLeft : Reader → ℕ
  | .outside => 0
  | .opened _ => 5
  | .registered _ => 4
  | .reading _ _ => 3
  | .finished _ _ => 2
  | .leaving _ _ => 1

theorem readerLeft_step (h : Step s a s') :
    (if a.ofReader then 1 else 0) + s'.reader.stepsLeft ≤ s.reader.stepsLeft + a.readCost := by
  cases h with
  | openThread h | refused h | registered h | platformRead h | platformReturn _ h | lastSection h
  | closeHandle h => simp [h, Label.ofReader, Label.readCost, Reader.stepsLeft]
  | abort k hsome h => simp [h, Label.ofReader, Label.readCost, Reader.stepsLeft]
  | cancelCall | noRead | retry | cancelReturn => simp [Label.ofReader, Label.readCost]

/-- The steps of the thread `k` in a `cancel` that need not be tried again. -/
def Label.ofCanceller (k : ℕ) : Label → Bool
  | .cancelSection j answer => decide (j = k) && answer
  | .cancelReturn j => decide (j = k)
  | .openThread | .firstSection | .platformRead | .platformReturn _ | .lastSection | .closeHandle
  | .cancelCall _ => false

/-- A call of `cancel` takes two of them. -/
def Label.cancelCost (k : ℕ) : Label → ℕ
  | .cancelCall j => if j = k then 2 else 0
  | _ => 0

def Canceller.stepsLeft : Canceller → ℕ
  | .outside => 0
  | .entered | .retrying => 2
  | .broke => 1

theorem looping {k : ℕ} {answer : Bool} (ha : step s (.cancelSection k answer) = some s') :
    (s.cancellers k).stepsLeft = 2 := by
  cases hk : s.cancellers k with
  | entered | retrying => rfl
  | outside | broke => simp [step, hk] at ha

theorem cancellerLeft_step (k : ℕ) (ha : step s a = some s') :
    (if a.ofCanceller k then 1 else 0) + (s'.cancellers k).stepsLeft ≤
      (s.cancellers k).stepsLeft + a.cancelCost k := by
  have hstep := step_cases ha
  cases hstep with
  | openThread | refused | registered | platformRead | platformReturn | lastSection | closeHandle =>
      simp [Label.ofCanceller, Label.cancelCost]
  | cancelCall j =>
      by_cases hj : j = k
      · subst hj
        simp [Label.ofCanceller, Label.cancelCost, Canceller.stepsLeft]
      · simp [Label.ofCanceller, Label.cancelCost, hj, Function.update_of_ne (Ne.symm hj)]
  | noRead j answer | abort j =>
      by_cases hj : j = k
      · subst hj
        rw [looping ha]
        simp only [Label.ofCanceller, Label.cancelCost, Function.update_self, Canceller.stepsLeft]
        split <;> omega
      · simp [Label.ofCanceller, Label.cancelCost, hj, Function.update_of_ne (Ne.symm hj)]
  | retry j =>
      by_cases hj : j = k
      · subst hj
        rw [looping ha]
        simp [Label.ofCanceller, Label.cancelCost, Canceller.stepsLeft]
      · simp [Label.ofCanceller, Label.cancelCost, hj, Function.update_of_ne (Ne.symm hj)]
  | cancelReturn j hj' =>
      by_cases hj : j = k
      · subst hj
        simp [Label.ofCanceller, Label.cancelCost, Canceller.stepsLeft, hj']
      · simp [Label.ofCanceller, Label.cancelCost, hj, Function.update_of_ne (Ne.symm hj)]

/-- A call of `read` and a call of `cancel` take a bounded number of steps, those apart in which
`cancel` has to try again. They come to a halt, as far as the peer is not concerned, only where
nobody is inside `cancel` and nobody inside a `read` that should have been cancelled. -/
theorem cancel_gets_through {labels : List Label} (hrun : run step init labels = some s) :
    labels.countP Label.ofReader ≤ (labels.map Label.readCost).sum ∧
      (∀ k, labels.countP (Label.ofCanceller k) ≤ (labels.map (Label.cancelCost k)).sum) ∧
      (Stuck s ↔ Resting s) := by
  have hs := chased_run hrun
  refine ⟨?_, fun k => ?_, fun h => h.resting hs, fun h => h.stuck⟩
  · have hcount : labels.countP Label.ofReader + s.reader.stepsLeft ≤
        init.reader.stepsLeft + (labels.map Label.readCost).sum :=
      countP_add_le_of_cost (P := fun _ _ => True) Label.readCost (fun _ => True)
        (fun s => s.reader.stepsLeft)
        (fun _ _ _ _ _ ha => ⟨trivial, readerLeft_step (step_cases ha)⟩) trivial
        (along_of_forall (fun _ _ _ => trivial) _) hrun
    have hinit : init.reader.stepsLeft = 0 := rfl
    omega
  · have hcount : labels.countP (Label.ofCanceller k) + (s.cancellers k).stepsLeft ≤
        (init.cancellers k).stepsLeft + (labels.map (Label.cancelCost k)).sum :=
      countP_add_le_of_cost (P := fun _ _ => True) (Label.cancelCost k) (fun _ => True)
        (fun s => (s.cancellers k).stepsLeft)
        (fun _ _ _ _ _ ha => ⟨trivial, cancellerLeft_step k ha⟩) trivial
        (along_of_forall (fun _ _ _ => trivial) _) hrun
    have hinit : (init.cancellers k).stepsLeft = 0 := rfl
    omega

/-- Two threads cancel a read that waits for its peer. -/
theorem cancel_gets_through_twice :
    ∃ s, run step init [.openThread, .firstSection, .cancelCall 0, .cancelSection 0 false,
        .platformRead, .cancelCall 1, .cancelSection 1 true, .cancelReturn 1,
        .platformReturn 0, .lastSection, .closeHandle, .cancelSection 0 true,
        .cancelReturn 0] = some s ∧ s.cancelled = true ∧ s.reader = .outside ∧
      (Stuck s ↔ Resting s) := by
  obtain ⟨s, hrun, hcancelled, hreader⟩ : ∃ s, run step init [.openThread, .firstSection,
      .cancelCall 0, .cancelSection 0 false, .platformRead, .cancelCall 1, .cancelSection 1 true,
      .cancelReturn 1, .platformReturn 0, .lastSection, .closeHandle, .cancelSection 0 true,
      .cancelReturn 0] = some s ∧ s.cancelled = true ∧ s.reader = .outside :=
    ⟨_, rfl, rfl, rfl⟩
  exact ⟨s, hrun, hcancelled, hreader, (cancel_gets_through hrun).2.2⟩

end CohesionIpc.CancellableRead.Win32
