import CohesionIpc.Model.Sockets.SocketHandle

/-! The owners of socket descriptors. A handle takes `_socket == 0` for being empty, so it
never closes a descriptor 0. -/

namespace CohesionIpc.Sockets

open Transition

/-- Every descriptor has one owner as long as it is open, and has been closed once for each
time that an owner has let it go. -/
structure SoleOwners (s : SocketHandles) : Prop where
  unique : ∀ h h' d, s.held h = some d → s.held h' = some d → h = h'
  usable : ∀ h d, s.held h = some d → s.socket h = some d
  kept : ∀ d, (∃ h, s.held h = some d) → s.opened.count d = s.closes.count d + 1
  closed : ∀ d, (¬∃ h, s.held h = some d) → s.opened.count d = s.closes.count d

/-- The call takes away what a handle holds without giving it to another handle. -/
def HandleCall.GivesUp (c : HandleCall) (h : ℕ) : Prop :=
  c = .reset h ∨ c = .destroy h ∨ ∃ d, d ≠ -1 ∧ c = .resetTo h d

/-- The descriptor handed in by a call. -/
def HandleCall.given : HandleCall → Option ℤ
  | construct _ d | resetTo _ d => some d
  | _ => none

/-- A call that is handed -1 raises and does nothing else. -/
def Refuses (s : SocketHandles) (c : HandleCall) (t : SocketHandles) : Prop :=
  c.given = some (-1) → t = { s with raised := true }

namespace SocketHandles

variable {s t : SocketHandles} {h : ℕ} {d : ℤ} {c : HandleCall}

/-- `_socket` is the descriptor held, and 0 when there is none. -/
structure Faithful (s : SocketHandles) : Prop where
  socket : ∀ h v, s.socket h = some v → v = (s.held h).getD 0
  held : ∀ h, s.socket h = none → s.held h = none

theorem Faithful.constructed (hs : s.Faithful) (hh : s.held h = some d) :
    s.socket h = some d := by
  cases hsocket : s.socket h with
  | none =>
      rw [hs.held h hsocket] at hh
      cases hh
  | some v => rw [hs.socket h v hsocket, hh, Option.getD_some]

theorem init_soleOwners : SoleOwners init := by
  refine ⟨?_, ?_, ?_, ?_⟩
  · intro h h' d hh
    cases hh
  · intro h d hh
    cases hh
  · rintro d ⟨h, hh⟩
    cases hh
  · exact fun d _ => rfl

theorem init_faithful : init.Faithful := by
  refine ⟨?_, fun _ _ => rfl⟩
  intro h v hv
  cases hv

/-! ## Letting go -/

/-- A handle that holds nothing closes nothing. -/
theorem reset_of_empty (hs : s.Faithful) (hsocket : s.socket h ≠ none) (hh : s.held h = none) :
    s.reset h = s := by
  cases hv : s.socket h with
  | none => exact absurd hv hsocket
  | some v =>
      have hzero : v = 0 := by rw [hs.socket h v hv, hh, Option.getD_none]
      rw [reset, hv]
      simp only [hzero, ne_eq, not_true, if_false]
      rw [← hzero, ← hv, ← hh, Function.update_eq_self, Function.update_eq_self]

theorem reset_of_held (hs : s.Faithful) (hh : s.held h = some d) :
    s.reset h = { s with
      socket := Function.update s.socket h (some 0)
      closes := if d ≠ 0 then s.closes ++ [d] else s.closes
      held := Function.update s.held h none } := by
  rw [reset, hs.constructed hh]

theorem faithful_reset (hs : s.Faithful) : (s.reset h).Faithful := by
  cases hv : s.socket h with
  | none =>
      rw [reset, hv]
      exact hs
  | some v =>
      rw [reset, hv]
      refine ⟨?_, ?_⟩
      · intro h' v' hv'
        by_cases hne : h' = h
        · rw [hne] at hv' ⊢
          simp only [Function.update_self, Option.some.injEq] at hv'
          simp only [Function.update_self, Option.getD_none]
          exact hv'.symm
        · simp only [Function.update_of_ne hne] at hv' ⊢
          exact hs.socket h' v' hv'
      · intro h' hv'
        by_cases hne : h' = h
        · rw [hne] at hv'
          simp at hv'
        · simp only [Function.update_of_ne hne] at hv' ⊢
          exact hs.held h' hv'

/-- After a reset, the others hold what they held before. -/
theorem held_reset (hs : s.Faithful) (h' : ℕ) :
    (s.reset h).held h' = if h' = h then none else s.held h' := by
  cases hv : s.socket h with
  | none =>
      rw [reset, hv]
      by_cases hne : h' = h
      · rw [if_pos hne, hne]
        exact hs.held h hv
      · rw [if_neg hne]
  | some v =>
      rw [reset, hv]
      exact Function.update_apply _ _ _ _

@[simp] theorem opened_reset : (s.reset h).opened = s.opened := by
  rw [reset]
  split <;> rfl

theorem count_closes_reset (d : ℤ) : s.closes.count d ≤ (s.reset h).closes.count d := by
  rw [reset]
  split
  · exact le_rfl
  · simp only
    split
    · rw [List.count_append]
      omega
    · exact le_rfl

theorem held_of_held_reset (hs : s.Faithful) {h' : ℕ} (hh : (s.reset h).held h' = some d) :
    s.held h' = some d := by
  rw [held_reset hs] at hh
  split at hh
  · cases hh
  · exact hh

theorem soleOwners_reset (hs : s.Faithful) (howned : SoleOwners s)
    (hzero : s.held h ≠ some 0) : SoleOwners (s.reset h) := by
  cases hh : s.held h with
  | none =>
      by_cases hsocket : s.socket h = none
      · have hsame : s.reset h = s := by rw [reset, hsocket]
        rwa [hsame]
      · rwa [reset_of_empty hs hsocket hh]
  | some v =>
      have hne : v ≠ 0 := fun h0 => hzero (by rw [hh, h0])
      have hcloses : (s.reset h).closes = s.closes ++ [v] := by
        rw [reset_of_held hs hh]
        simp only [if_pos hne]
      have hgone : ¬∃ h', (s.reset h).held h' = some v := by
        rintro ⟨h', hh'⟩
        rw [held_reset hs] at hh'
        split at hh'
        · cases hh'
        · rename_i hne'
          exact hne' (howned.unique h' h v hh' hh)
      have hothers : ∀ d, d ≠ v →
          ((∃ h', (s.reset h).held h' = some d) ↔ ∃ h', s.held h' = some d) := by
        intro d hd
        constructor
        · rintro ⟨h', hh'⟩
          rw [held_reset hs] at hh'
          split at hh'
          · cases hh'
          · exact ⟨h', hh'⟩
        · rintro ⟨h', hh'⟩
          refine ⟨h', ?_⟩
          rw [held_reset hs, if_neg, hh']
          intro heq
          rw [heq, hh, Option.some.injEq] at hh'
          exact hd hh'.symm
      have hcount : ∀ d, d ≠ v → (s.closes ++ [v]).count d = s.closes.count d := by
        intro d hd
        rw [List.count_append, List.count_singleton, if_neg (by simpa using hd.symm), Nat.add_zero]
      refine ⟨?_, ?_, ?_, ?_⟩
      · intro h₁ h₂ d h₁d h₂d
        rw [held_reset hs] at h₁d h₂d
        split at h₁d
        · cases h₁d
        · split at h₂d
          · cases h₂d
          · exact howned.unique h₁ h₂ d h₁d h₂d
      · intro h' d hh'
        exact (faithful_reset hs).constructed hh'
      · intro d hd
        rw [opened_reset, hcloses]
        have hdv : d ≠ v := fun hdv => hgone (hdv ▸ hd)
        rw [hcount d hdv]
        exact howned.kept d ((hothers d hdv).mp hd)
      · intro d hd
        rw [opened_reset, hcloses]
        by_cases hdv : d = v
        · rw [hdv, List.count_append, List.count_singleton_self]
          exact howned.kept v ⟨h, hh⟩
        · rw [hcount d hdv]
          exact howned.closed d fun hex => hd ((hothers d hdv).mpr hex)

theorem faithful_destroy (hs : s.Faithful) :
    ({ s.reset h with
      socket := Function.update s.socket h none
      raised := false } : SocketHandles).Faithful := by
  refine ⟨?_, ?_⟩
  · intro h' v hv
    by_cases hne : h' = h
    · rw [hne] at hv
      simp at hv
    · simp only [Function.update_of_ne hne] at hv
      simp only [held_reset hs, if_neg hne]
      exact hs.socket h' v hv
  · intro h' hv
    simp only [held_reset hs]
    by_cases hne : h' = h
    · rw [if_pos hne]
    · rw [if_neg hne]
      simp only [Function.update_of_ne hne] at hv
      exact hs.held h' hv

/-! ## Taking over -/

/-- The state after an empty handle has been given a descriptor. -/
def give (s : SocketHandles) (h : ℕ) (d : ℤ) : SocketHandles :=
  { s with
    socket := Function.update s.socket h (some d)
    opened := s.opened ++ [d]
    held := Function.update s.held h (some d)
    raised := false }

theorem resetTo_eq (hd : d ≠ -1) : s.resetTo h d = (s.reset h).give h d := by
  rw [resetTo, if_neg hd]
  rfl

theorem faithful_give (hs : s.Faithful) : (s.give h d).Faithful := by
  refine ⟨?_, ?_⟩
  · intro h' v hv
    by_cases hne : h' = h
    · rw [hne] at hv ⊢
      simp only [give, Function.update_self, Option.some.injEq, Option.getD_some] at hv ⊢
      exact hv.symm
    · simp only [give, Function.update_of_ne hne] at hv ⊢
      exact hs.socket h' v hv
  · intro h' hv
    by_cases hne : h' = h
    · rw [hne] at hv
      simp [give] at hv
    · simp only [give, Function.update_of_ne hne] at hv ⊢
      exact hs.held h' hv

theorem held_give (h' : ℕ) : (s.give h d).held h' = if h' = h then some d else s.held h' :=
  Function.update_apply _ _ _ _

/-- A number that is not in use is held by nobody. -/
theorem not_held (howned : SoleOwners s) (hopen : ¬s.Open d) : ¬∃ h, s.held h = some d := by
  intro hex
  have hcount := howned.kept d hex
  rw [Open] at hopen
  omega

theorem soleOwners_give (hs : s.Faithful) (howned : SoleOwners s) (hh : s.held h = none)
    (hopen : ¬s.Open d) : SoleOwners (s.give h d) := by
  have hfree := not_held howned hopen
  have hcount : ∀ d', (s.give h d).opened.count d' =
      s.opened.count d' + if d = d' then 1 else 0 := by
    intro d'
    simp only [give, List.count_append, List.count_singleton, beq_iff_eq]
  refine ⟨?_, ?_, ?_, ?_⟩
  · intro h₁ h₂ d' h₁d h₂d
    rw [held_give] at h₁d h₂d
    split at h₁d
    · rename_i heq₁
      split at h₂d
      · rename_i heq₂
        rw [heq₁, heq₂]
      · rw [← h₁d] at h₂d
        exact absurd ⟨h₂, h₂d⟩ hfree
    · split at h₂d
      · rw [← h₂d] at h₁d
        exact absurd ⟨h₁, h₁d⟩ hfree
      · exact howned.unique h₁ h₂ d' h₁d h₂d
  · intro h' d' hh'
    exact (faithful_give hs).constructed hh'
  · rintro d' ⟨h', hh'⟩
    rw [hcount]
    rw [held_give] at hh'
    split at hh'
    · rw [Option.some.injEq] at hh'
      rw [if_pos hh', ← hh', howned.closed d hfree]
      rfl
    · have hne : d ≠ d' := fun heq => hfree ⟨h', heq ▸ hh'⟩
      rw [if_neg hne]
      exact howned.kept d' ⟨h', hh'⟩
  · intro d' hd'
    have hne : d ≠ d' := by
      intro heq
      apply hd'
      refine ⟨h, ?_⟩
      rw [held_give, if_pos rfl, heq]
    rw [hcount, if_neg hne]
    refine howned.closed d' ?_
    rintro ⟨h', hh'⟩
    apply hd'
    refine ⟨h', ?_⟩
    rw [held_give, if_neg, hh']
    intro heq
    rw [heq, hh] at hh'
    cases hh'

theorem faithful_construct (hs : s.Faithful) (hsocket : s.socket h = none) :
    ({ s with socket := Function.update s.socket h (some 0) } : SocketHandles).Faithful := by
  refine ⟨?_, ?_⟩
  · intro h' v hv
    by_cases hne : h' = h
    · rw [hne] at hv ⊢
      simp only [Function.update_self, Option.some.injEq] at hv
      simp only [hs.held h hsocket, Option.getD_none]
      exact hv.symm
    · simp only [Function.update_of_ne hne] at hv
      exact hs.socket h' v hv
  · intro h' hv
    by_cases hne : h' = h
    · rw [hne]
      exact hs.held h hsocket
    · simp only [Function.update_of_ne hne] at hv
      exact hs.held h' hv

/-- A new handle is given its descriptor as an empty one. -/
theorem construct_eq (hs : s.Faithful) (hsocket : s.socket h = none) (hd : d ≠ -1) :
    ({ s with socket := Function.update s.socket h (some 0) } : SocketHandles).resetTo h d =
      s.give h d := by
  have hempty := reset_of_empty (h := h) (faithful_construct hs hsocket)
    (by simp) (hs.held h hsocket)
  rw [resetTo_eq hd, hempty]
  simp only [give, Function.update_idem]

/-! ## Passing on -/

/-- The state after a handle has been constructed from another one. -/
def pass (s : SocketHandles) (h other : ℕ) (v : ℤ) : SocketHandles :=
  { s with
    socket := Function.update (Function.update s.socket h (some v)) other (some 0)
    held := Function.update (Function.update s.held h (s.held other)) other none
    raised := false }

variable {other : ℕ} {v : ℤ}

theorem held_pass (h' : ℕ) : (s.pass h other v).held h' =
    if h' = other then none else if h' = h then s.held other else s.held h' := by
  rw [pass]
  by_cases hother : h' = other
  · rw [if_pos hother, hother]
    exact Function.update_self _ _ _
  · by_cases hh : h' = h
    · rw [hh] at hother ⊢
      simp only [if_neg hother, if_true, Function.update_of_ne hother, Function.update_self]
    · simp only [if_neg hother, if_neg hh, Function.update_of_ne hother, Function.update_of_ne hh]

theorem faithful_pass (hs : s.Faithful) (hother : s.socket other = some v) :
    (s.pass h other v).Faithful := by
  refine ⟨?_, ?_⟩
  · intro h' v' hv'
    rw [held_pass]
    by_cases heq : h' = other
    · rw [if_pos heq]
      simp only [pass, heq, Function.update_self, Option.some.injEq] at hv'
      exact hv'.symm
    · rw [if_neg heq]
      simp only [pass, Function.update_of_ne heq] at hv'
      by_cases hh : h' = h
      · rw [if_pos hh]
        simp only [hh, Function.update_self, Option.some.injEq] at hv'
        rw [← hv']
        exact hs.socket other v hother
      · rw [if_neg hh]
        rw [Function.update_of_ne hh] at hv'
        exact hs.socket h' v' hv'
  · intro h' hv'
    rw [held_pass]
    by_cases heq : h' = other
    · rw [if_pos heq]
    · rw [if_neg heq]
      simp only [pass, Function.update_of_ne heq] at hv'
      by_cases hh : h' = h
      · simp [hh] at hv'
      · rw [if_neg hh]
        rw [Function.update_of_ne hh] at hv'
        exact hs.held h' hv'

/-- Passing on changes who holds a descriptor and not which are held. -/
theorem held_pass_iff (hs : s.Faithful) (hsocket : s.socket h = none)
    (hother : s.socket other = some v) :
    (∃ h', (s.pass h other v).held h' = some d) ↔ ∃ h', s.held h' = some d := by
  have hne : h ≠ other := by
    intro heq
    rw [heq, hother] at hsocket
    cases hsocket
  constructor
  · rintro ⟨h', hh'⟩
    rw [held_pass] at hh'
    split at hh'
    · cases hh'
    · split at hh'
      · exact ⟨other, hh'⟩
      · exact ⟨h', hh'⟩
  · rintro ⟨h', hh'⟩
    by_cases heq : h' = other
    · refine ⟨h, ?_⟩
      rw [held_pass, if_neg hne, if_pos rfl, ← heq, hh']
    · refine ⟨h', ?_⟩
      rw [held_pass, if_neg heq, if_neg, hh']
      intro hh
      rw [hh, hs.held h hsocket] at hh'
      cases hh'

theorem soleOwners_pass (hs : s.Faithful) (howned : SoleOwners s) (hsocket : s.socket h = none)
    (hother : s.socket other = some v) : SoleOwners (s.pass h other v) := by
  refine ⟨?_, ?_, ?_, ?_⟩
  · intro h₁ h₂ d h₁d h₂d
    rw [held_pass] at h₁d h₂d
    split at h₁d
    · cases h₁d
    · rename_i hne₁
      split at h₂d
      · cases h₂d
      · rename_i hne₂
        split at h₁d <;> split at h₂d
        · rename_i heq₁ heq₂
          rw [heq₁, heq₂]
        · exact absurd (howned.unique h₂ other d h₂d h₁d) hne₂
        · exact absurd (howned.unique h₁ other d h₁d h₂d) hne₁
        · exact howned.unique h₁ h₂ d h₁d h₂d
  · intro h' d hh'
    exact (faithful_pass hs hother).constructed hh'
  · intro d hd
    exact howned.kept d ((held_pass_iff hs hsocket hother).mp hd)
  · intro d hd
    exact howned.closed d fun hex => hd ((held_pass_iff hs hsocket hother).mpr hex)

/-! ## Every call -/

/-- The calls, one rule per branch of the source. -/
inductive Called (s : SocketHandles) : HandleCall → SocketHandles → Prop
  | refused {c : HandleCall} (hgiven : c.given = some (-1)) : Called s c { s with raised := true }
  | construct {h : ℕ} {d : ℤ} (hsocket : s.socket h = none) (hfresh : s.Fresh d) (hd : d ≠ -1) :
      Called s (.construct h d)
        ({ s with socket := Function.update s.socket h (some 0) }.resetTo h d)
  | transfer {h other : ℕ} {v : ℤ} (hsocket : s.socket h = none)
      (hother : s.socket other = some v) : Called s (.transfer h other) (s.pass h other v)
  | reset {h : ℕ} (hsocket : s.socket h ≠ none) :
      Called s (.reset h) { s.reset h with raised := false }
  | resetTo {h : ℕ} {d : ℤ} (hsocket : s.socket h ≠ none) (hfresh : s.Fresh d) (hd : d ≠ -1) :
      Called s (.resetTo h d) (s.resetTo h d)
  | destroy {h : ℕ} (hsocket : s.socket h ≠ none) : Called s (.destroy h)
      { s.reset h with socket := Function.update s.socket h none, raised := false }

theorem step_called (ht : s.step c = some t) : Called s c t := by
  cases c with
  | construct h d =>
      simp only [step, Option.ite_none_right_eq_some] at ht
      obtain ⟨⟨hsocket, hfresh⟩, ht⟩ := ht
      split at ht
      · rename_i hd
        cases ht
        exact .refused (congrArg some hd)
      · rename_i hd
        cases ht
        exact .construct hsocket hfresh hd
  | transfer h other =>
      simp only [step] at ht
      split at ht
      · rename_i hsocket hother
        cases ht
        exact .transfer hsocket hother
      · cases ht
  | reset h =>
      simp only [step, Option.ite_none_right_eq_some, Option.some.injEq] at ht
      obtain ⟨hsocket, rfl⟩ := ht
      exact .reset hsocket
  | resetTo h d =>
      simp only [step, Option.ite_none_right_eq_some, Option.some.injEq] at ht
      obtain ⟨⟨hsocket, hfresh⟩, rfl⟩ := ht
      by_cases hd : d = -1
      · rw [SocketHandles.resetTo, if_pos hd]
        exact .refused (congrArg some hd)
      · exact .resetTo hsocket hfresh hd
  | destroy h =>
      simp only [step, Option.ite_none_right_eq_some, Option.some.injEq] at ht
      obtain ⟨hsocket, rfl⟩ := ht
      exact .destroy hsocket

theorem not_open_of_fresh (hfresh : s.Fresh d) (hd : d ≠ -1) : ¬s.Open d :=
  (hfresh.resolve_left hd).2

/-- A handle that does not hold 0 is emptied before it is destroyed or given another one. -/
theorem Called.soleOwners (hs : s.Faithful) (howned : SoleOwners s) (hcall : Called s c t)
    (hzero : ∀ h, c.GivesUp h → s.held h ≠ some 0) : SoleOwners t ∧ t.Faithful := by
  cases hcall with
  | refused _ =>
      exact ⟨⟨howned.unique, howned.usable, howned.kept, howned.closed⟩, ⟨hs.socket, hs.held⟩⟩
  | construct hsocket hfresh hd =>
      rw [construct_eq hs hsocket hd]
      exact ⟨soleOwners_give hs howned (hs.held _ hsocket) (not_open_of_fresh hfresh hd),
        faithful_give hs⟩
  | transfer hsocket hother =>
      exact ⟨soleOwners_pass hs howned hsocket hother, faithful_pass hs hother⟩
  | @reset h hsocket =>
      have howned' := soleOwners_reset hs howned (hzero h (.inl rfl))
      have hs' := faithful_reset (h := h) hs
      exact ⟨⟨howned'.unique, howned'.usable, howned'.kept, howned'.closed⟩, ⟨hs'.socket, hs'.held⟩⟩
  | @resetTo h d hsocket hfresh hd =>
      have howned' := soleOwners_reset hs howned (hzero h (.inr (.inr ⟨d, hd, rfl⟩)))
      have hs' := faithful_reset (h := h) hs
      have hempty : (s.reset h).held h = none := by rw [held_reset hs, if_pos rfl]
      have hopen : ¬(s.reset h).Open d := by
        intro hopen
        apply not_open_of_fresh hfresh hd
        rw [Open, opened_reset] at hopen
        exact lt_of_le_of_lt (count_closes_reset d) hopen
      rw [resetTo_eq hd]
      exact ⟨soleOwners_give hs' howned' hempty hopen, faithful_give hs'⟩
  | @destroy h hsocket =>
      have howned' := soleOwners_reset hs howned (hzero h (.inr (.inl rfl)))
      have hfaithful := faithful_destroy (h := h) hs
      exact ⟨⟨howned'.unique, fun h' d hh' => hfaithful.constructed hh', howned'.kept,
        howned'.closed⟩, hfaithful⟩

/-- A call that gives up descriptor 0 leaks it. -/
theorem Called.leaks (hs : s.Faithful) (howned : SoleOwners s) (hcall : Called s c t)
    (hgives : c.GivesUp h) (hzero : s.held h = some 0) : ¬SoleOwners t := by
  intro howned'
  have hcount := howned.kept 0 ⟨h, hzero⟩
  have hothers : ∀ h', (s.reset h).held h' ≠ some 0 := by
    intro h' hh'
    rw [held_reset hs] at hh'
    split at hh'
    · cases hh'
    · rename_i hne
      exact hne (howned.unique h' h 0 hh' hzero)
  have hcloses : (s.reset h).closes = s.closes := by
    rw [reset_of_held hs hzero]
    rfl
  -- nobody holds 0 any more, and it has not been closed
  have hgone : ∀ t' : SocketHandles, SoleOwners t' → (∀ h', t'.held h' ≠ some 0) →
      t'.closes = s.closes → t'.opened.count 0 ≠ s.opened.count 0 := by
    intro t' ht' hheld ht'closes hopened
    have := ht'.closed 0 fun hex => hheld hex.choose hex.choose_spec
    rw [ht'closes, hopened] at this
    omega
  rcases hgives with rfl | rfl | ⟨d, hd, rfl⟩
  · cases hcall with
    | refused hgiven => cases hgiven
    | reset _ => exact hgone _ howned' hothers hcloses (congrArg _ opened_reset)
  · cases hcall with
    | refused hgiven => cases hgiven
    | destroy _ => exact hgone _ howned' hothers hcloses (congrArg _ opened_reset)
  · cases hcall with
    | refused hgiven => exact absurd (Option.some.inj hgiven) hd
    | resetTo hsocket hfresh _ =>
        have hd0 : d ≠ 0 := by
          intro heq
          apply not_open_of_fresh hfresh hd
          rw [heq, Open]
          omega
        rw [resetTo_eq hd] at howned'
        refine hgone _ howned' ?_ hcloses ?_
        · intro h'
          rw [held_give]
          split
          · simpa using hd0
          · exact hothers h'
        · simp only [give, opened_reset, List.count_append, List.count_singleton, beq_iff_eq, hd0,
            if_false, Nat.add_zero]

/-- What is held was held before or has been handed in by the call. -/
theorem Called.held_cases (hs : s.Faithful) (hcall : Called s c t) (hh : t.held h = some d) :
    (∃ h', s.held h' = some d) ∨ c.given = some d := by
  cases hcall with
  | refused _ => exact .inl ⟨h, hh⟩
  | construct hsocket _ hd =>
      rw [construct_eq hs hsocket hd, held_give] at hh
      split at hh
      · exact .inr hh
      · exact .inl ⟨h, hh⟩
  | transfer hsocket hother => exact .inl ((held_pass_iff hs hsocket hother).mp ⟨h, hh⟩)
  | reset _ => exact .inl ⟨h, held_of_held_reset hs hh⟩
  | resetTo _ _ hd =>
      rw [resetTo_eq hd, held_give] at hh
      split at hh
      · exact .inr hh
      · exact .inl ⟨h, held_of_held_reset hs hh⟩
  | destroy _ => exact .inl ⟨h, held_of_held_reset hs hh⟩

theorem Called.faithful (hs : s.Faithful) (hcall : Called s c t) : t.Faithful := by
  cases hcall with
  | refused _ => exact ⟨hs.socket, hs.held⟩
  | construct hsocket _ hd =>
      rw [construct_eq hs hsocket hd]
      exact faithful_give hs
  | transfer _ hother => exact faithful_pass hs hother
  | @reset h _ =>
      have hs' := faithful_reset (h := h) hs
      exact ⟨hs'.socket, hs'.held⟩
  | resetTo _ _ hd =>
      rw [resetTo_eq hd]
      exact faithful_give (faithful_reset hs)
  | destroy _ => exact faithful_destroy hs

theorem Called.refuses (hcall : Called s c t) : Refuses s c t := by
  intro hgiven
  cases hcall with
  | refused _ => rfl
  | construct _ _ hd => exact absurd (Option.some.inj hgiven) hd
  | transfer _ _ => cases hgiven
  | reset _ => cases hgiven
  | resetTo _ _ hd => exact absurd (Option.some.inj hgiven) hd
  | destroy _ => cases hgiven

end SocketHandles

open SocketHandles

/-- Every descriptor has one owner and is closed once throughout a run exactly when no call
gives up a descriptor 0; and no call does when none is handed in. -/
theorem soleOwners_iff (calls : List HandleCall)
    (hrun : (run SocketHandles.step SocketHandles.init calls).isSome) :
    (Through SocketHandles.step (fun s c t => SoleOwners t ∧ Refuses s c t) SocketHandles.init
        calls ↔
      Along SocketHandles.step (fun s c => ∀ h, c.GivesUp h → s.held h ≠ some 0)
        SocketHandles.init calls) ∧
    ((∀ c ∈ calls, c.given ≠ some 0) →
      Along SocketHandles.step (fun s c => ∀ h, c.GivesUp h → s.held h ≠ some 0)
        SocketHandles.init calls) := by
  refine ⟨?_, ?_⟩
  · apply through_iff_along_of_step (fun s => SoleOwners s ∧ s.Faithful) ?_ ?_
      ⟨init_soleOwners, init_faithful⟩ hrun
    · rintro s c t ⟨howned, hs⟩ hzero ht
      have hcall := step_called ht
      have hnext := hcall.soleOwners hs howned hzero
      exact ⟨hnext, hnext.1, hcall.refuses⟩
    · rintro s c t ⟨howned, hs⟩ ht ⟨howned', -⟩ h hgives hheld
      exact (step_called ht).leaks hs howned hgives hheld howned'
  · intro hgiven
    apply Along.of_invariant (P := fun _ c => c.given ≠ some 0)
      (fun s => s.Faithful ∧ ∀ h, s.held h ≠ some 0)
    · rintro s c t ⟨hs, hnone⟩ hc ht
      have hcall := step_called ht
      refine ⟨hcall.faithful hs, ?_⟩
      intro h hh
      rcases hcall.held_cases hs hh with ⟨h', hh'⟩ | hc'
      · exact hnone h' hh'
      · exact hc hc'
    · exact fun s c hs _ h _ => hs.2 h
    · exact ⟨init_faithful, fun h hh => by cases hh⟩
    · exact along_of_forall (fun c hc _ => hgiven c hc) _

/-- Descriptors 3 and 4 with a handle passed on, one refused and one given another descriptor. -/
theorem soleOwners_iff_three :
    Through SocketHandles.step (fun s c t => SoleOwners t ∧ Refuses s c t) SocketHandles.init
      [.construct 0 3, .transfer 1 0, .resetTo 1 (-1), .resetTo 1 4, .destroy 0, .destroy 1] := by
  have h := soleOwners_iff
    [.construct 0 3, .transfer 1 0, .resetTo 1 (-1), .resetTo 1 4, .destroy 0, .destroy 1]
    (by decide)
  exact h.1.mpr (h.2 (by decide))

/-- A handle that is given descriptor 0 does not close it. -/
theorem not_soleOwners_zero :
    ¬Through SocketHandles.step (fun s c t => SoleOwners t ∧ Refuses s c t) SocketHandles.init
      [.construct 0 0, .destroy 0] := by
  intro hthrough
  obtain ⟨s, hs, hheld, t, ht⟩ : ∃ s, SocketHandles.init.step (.construct 0 0) = some s ∧
      s.held 0 = some 0 ∧ ∃ t, s.step (.destroy 0) = some t := ⟨_, rfl, rfl, _, rfl⟩
  have hgiven := hthrough s hs
  have hs' := (step_called hs).faithful init_faithful
  exact (step_called ht).leaks hs' hgiven.1.1 (.inr (.inl rfl)) hheld (hgiven.2 t ht).1.1

end CohesionIpc.Sockets
