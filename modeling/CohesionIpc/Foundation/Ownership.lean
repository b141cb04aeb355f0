import Mathlib.Data.List.Nodup

/-! Entries of a store that are owned by handles. A handle is the list of the deleters it
holds, and releasing it runs them in that order. -/

namespace CohesionIpc

/-- A store whose entries are erased through deleters. `entry s d` is what the deleter
would remove; where it is `none` the deleter dangles. -/
structure Store (σ δ ε : Type*) where
  entry : σ → δ → Option ε
  erase : σ → δ → σ
  entry_erase_self : ∀ s d, entry (erase s d) d = none
  entry_erase_of_ne : ∀ s d d', d' ≠ d → entry (erase s d) d' = entry s d'

namespace Store

variable {σ δ ε ι : Type*} (S : Store σ δ ε)

/-- The store after the deleters have run. -/
def release (s : σ) (ds : List δ) : σ := ds.foldl S.erase s

/-- What each deleter finds when its turn comes. -/
def erasures : σ → List δ → List (Option ε)
  | _, [] => []
  | s, d :: ds => S.entry s d :: erasures (S.erase s d) ds

@[simp] theorem length_erasures (s : σ) (ds : List δ) : (S.erasures s ds).length = ds.length := by
  induction ds generalizing s with
  | nil => rfl
  | cons d ds ih => simp [erasures, ih]

variable {S}

theorem entry_release_of_notMem {ds : List δ} {d : δ} (hd : d ∉ ds) (s : σ) :
    S.entry (S.release s ds) d = S.entry s d := by
  induction ds generalizing s with
  | nil => rfl
  | cons e ds ih =>
      rw [List.mem_cons, not_or] at hd
      rw [release, List.foldl_cons, ← release, ih hd.2, S.entry_erase_of_ne s e d hd.1]

theorem entry_release_of_mem {ds : List δ} {d : δ} (hd : d ∈ ds) (s : σ) :
    S.entry (S.release s ds) d = none := by
  induction ds generalizing s with
  | nil => exact absurd hd List.not_mem_nil
  | cons e ds ih =>
      rw [release, List.foldl_cons, ← release]
      by_cases hmem : d ∈ ds
      · exact ih hmem _
      · rw [entry_release_of_notMem hmem]
        rcases List.mem_cons.mp hd with rfl | h
        · exact S.entry_erase_self s d
        · exact absurd h hmem

theorem entry_of_release {ds : List δ} {s : σ} {d : δ} {e : ε}
    (h : S.entry (S.release s ds) d = some e) : d ∉ ds ∧ S.entry s d = some e := by
  have hd : d ∉ ds := by
    intro hmem
    rw [entry_release_of_mem hmem] at h
    exact absurd h (by simp)
  exact ⟨hd, by rwa [entry_release_of_notMem hd] at h⟩

/-- Distinct deleters do not get into each other's way. -/
theorem erasures_of_nodup {ds : List δ} (hds : ds.Nodup) (s : σ) :
    S.erasures s ds = ds.map (S.entry s) := by
  induction ds generalizing s with
  | nil => rfl
  | cons d ds ih =>
      obtain ⟨hd, hds⟩ := List.nodup_cons.mp hds
      rw [erasures, ih hds, List.map_cons]
      congr 1
      apply List.map_congr_left
      intro d' hd'
      exact S.entry_erase_of_ne s d d' fun h => hd (h ▸ hd')

theorem entry_of_erasures {ds : List δ} {s : σ} (h : ∀ e ∈ S.erasures s ds, e ≠ none) {d : δ}
    (hd : d ∈ ds) : S.entry s d ≠ none := by
  induction ds generalizing s with
  | nil => exact absurd hd List.not_mem_nil
  | cons e ds ih =>
      by_cases hde : d = e
      · rw [hde]
        exact h _ List.mem_cons_self
      · have hmem : d ∈ ds := (List.mem_cons.mp hd).resolve_left hde
        rw [← S.entry_erase_of_ne s e d hde]
        exact ih (fun x hx => h x (List.mem_cons_of_mem _ hx)) hmem

/-- A release that never finds a dangling deleter runs each deleter once. -/
theorem nodup_of_erasures {ds : List δ} {s : σ} (h : ∀ e ∈ S.erasures s ds, e ≠ none) :
    ds.Nodup := by
  induction ds generalizing s with
  | nil => exact List.nodup_nil
  | cons d ds ih =>
      have htail : ∀ e ∈ S.erasures (S.erase s d) ds, e ≠ none :=
        fun x hx => h x (List.mem_cons_of_mem _ hx)
      refine List.nodup_cons.mpr ⟨?_, ih htail⟩
      intro hd
      exact entry_of_erasures htail hd (S.entry_erase_self s d)

/-! ## Growth -/

/-- `s'` is `s` with one entry of `es` behind each deleter of `ds`, and nothing else
changed. -/
structure Grows (S : Store σ δ ε) (s s' : σ) (ds : List δ) (es : List ε) : Prop where
  nodup : ds.Nodup
  fresh : ∀ d ∈ ds, S.entry s d = none
  entries : ds.map (S.entry s') = es.map some
  rest : ∀ d ∉ ds, S.entry s' d = S.entry s d

theorem Grows.refl (s : σ) : S.Grows s s [] [] where
  nodup := List.nodup_nil
  fresh _ h := absurd h List.not_mem_nil
  entries := rfl
  rest _ _ := rfl

theorem Grows.trans {s s' s'' : σ} {ds ds' : List δ} {es es' : List ε} (h : S.Grows s s' ds es)
    (h' : S.Grows s' s'' ds' es') : S.Grows s s'' (ds' ++ ds) (es' ++ es) := by
  have hapart : ∀ d ∈ ds, d ∉ ds' := by
    intro d hd hd'
    have hmem : S.entry s' d ∈ es.map some := by
      rw [← h.entries]
      exact List.mem_map_of_mem hd
    rw [h'.fresh d hd'] at hmem
    simp at hmem
  refine ⟨?_, ?_, ?_, ?_⟩
  · exact List.nodup_append'.mpr ⟨h'.nodup, h.nodup, fun d hd' hd => hapart d hd hd'⟩
  · intro d hd
    rcases List.mem_append.mp hd with hd' | hd
    · by_cases hmem : d ∈ ds
      · exact h.fresh d hmem
      · rw [← h.rest d hmem]
        exact h'.fresh d hd'
    · exact h.fresh d hd
  · rw [List.map_append, List.map_append, h'.entries, ← h.entries]
    congr 1
    exact List.map_congr_left fun d hd => h'.rest d (hapart d hd)
  · intro d hd
    rw [List.mem_append, not_or] at hd
    rw [h'.rest d hd.1, h.rest d hd.2]

/-! ## Ownership -/

variable [DecidableEq ι]

/-- Every entry of the store is owned by exactly one handle through one deleter, and
`registered` lists the entries of each handle in the order of its deleters. -/
structure Owned (S : Store σ δ ε) (s : σ) (handles : ι → List δ) (registered : ι → List ε) :
    Prop where
  nodup : ∀ h, (handles h).Nodup
  disjoint : ∀ h h', h ≠ h' → (handles h).Disjoint (handles h')
  held : ∀ h, (handles h).map (S.entry s) = (registered h).map some
  complete : ∀ d e, S.entry s d = some e → ∃ h, d ∈ handles h

variable {s s' : σ} {handles : ι → List δ} {registered : ι → List ε}

omit [DecidableEq ι] in
theorem Owned.entry_ne_none (H : S.Owned s handles registered) {h : ι} {d : δ}
    (hd : d ∈ handles h) : ∃ e ∈ registered h, S.entry s d = some e := by
  have hmem : S.entry s d ∈ (registered h).map some := by
    rw [← H.held h]
    exact List.mem_map_of_mem hd
  obtain ⟨e, he, heq⟩ := List.mem_map.mp hmem
  exact ⟨e, he, heq.symm⟩

omit [DecidableEq ι] in
theorem Owned.entry_of_registered (H : S.Owned s handles registered) {h : ι} {e : ε}
    (he : e ∈ registered h) : ∃ d ∈ handles h, S.entry s d = some e := by
  have hmem : some e ∈ (handles h).map (S.entry s) := by
    rw [H.held h]
    exact List.mem_map_of_mem he
  exact List.mem_map.mp hmem

omit [DecidableEq ι] in
/-- What is in the store is what the handles have registered. -/
theorem Owned.registered_iff (H : S.Owned s handles registered) (e : ε) :
    (∃ d, S.entry s d = some e) ↔ ∃ h, e ∈ registered h := by
  constructor
  · rintro ⟨d, hd⟩
    obtain ⟨h, hmem⟩ := H.complete d e hd
    obtain ⟨e', he', heq⟩ := H.entry_ne_none hmem
    cases hd.symm.trans heq
    exact ⟨h, he'⟩
  · rintro ⟨h, he⟩
    obtain ⟨d, -, hd⟩ := H.entry_of_registered he
    exact ⟨d, hd⟩

omit [DecidableEq ι] in
theorem Owned.erasures (H : S.Owned s handles registered) (h : ι) :
    S.erasures s (handles h) = (registered h).map some := by
  rw [erasures_of_nodup (H.nodup h), H.held h]

/-- A handle takes the entries by which the store has grown, then gives up those it held. -/
theorem Owned.replace (H : S.Owned s handles registered) (h : ι) {ds : List δ} {es : List ε}
    (hgrow : S.Grows s s' ds es) :
    S.erasures s' (handles h) = (registered h).map some ∧
      S.Owned (S.release s' (handles h)) (Function.update handles h ds)
        (Function.update registered h es) := by
  have hheld : ∀ h' d, d ∈ handles h' → d ∉ ds := by
    intro h' d hd hmem
    obtain ⟨e, -, he⟩ := H.entry_ne_none hd
    rw [hgrow.fresh d hmem] at he
    exact absurd he (by simp)
  have hold : ∀ h', (handles h').map (S.entry s') = (registered h').map some := by
    intro h'
    rw [← H.held h']
    exact List.map_congr_left fun d hd => hgrow.rest d (hheld h' d hd)
  refine ⟨by rw [erasures_of_nodup (H.nodup h), hold h], ?_, ?_, ?_, ?_⟩
  · intro h'
    by_cases heq : h' = h
    · rw [heq, Function.update_self]
      exact hgrow.nodup
    · rw [Function.update_of_ne heq]
      exact H.nodup h'
  · intro h₁ h₂ hne
    by_cases h₁h : h₁ = h
    · rw [h₁h, Function.update_self, Function.update_of_ne (h₁h ▸ hne.symm)]
      exact fun d hd hd' => hheld h₂ d hd' hd
    · rw [Function.update_of_ne h₁h]
      by_cases h₂h : h₂ = h
      · rw [h₂h, Function.update_self]
        exact fun d hd hd' => hheld h₁ d hd hd'
      · rw [Function.update_of_ne h₂h]
        exact H.disjoint h₁ h₂ hne
  · intro h'
    by_cases heq : h' = h
    · rw [heq, Function.update_self, Function.update_self, ← hgrow.entries]
      exact List.map_congr_left fun d hd =>
        entry_release_of_notMem (fun hmem => hheld h d hmem hd) s'
    · rw [Function.update_of_ne heq, Function.update_of_ne heq, ← hold h']
      exact List.map_congr_left fun d hd =>
        entry_release_of_notMem (H.disjoint h' h heq hd) s'
  · intro d e he
    obtain ⟨hd, he⟩ := entry_of_release he
    by_cases hmem : d ∈ ds
    · exact ⟨h, by rwa [Function.update_self]⟩
    · rw [hgrow.rest d hmem] at he
      obtain ⟨h', hd'⟩ := H.complete d e he
      have hne : h' ≠ h := fun heq => hd (heq ▸ hd')
      exact ⟨h', by rwa [Function.update_of_ne hne]⟩

end Store

end CohesionIpc
