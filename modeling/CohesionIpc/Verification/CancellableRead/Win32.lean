import CohesionIpc.Model.CancellableRead.Win32

/-! The contract of `cancellable_read` on Windows, over every interleaving of the critical
sections with the platform calls. -/

namespace CohesionIpc.CancellableRead.Win32

open Transition

/-- What `_cancelled`, `_thread_handle` and the reader's position have to do with each other. -/
structure Inv (s : State) : Prop where
  seen : s.cancelSeen = s.cancelled
  handle : s.threadHandle = s.reader.sectionHandle
  handle_lt : ∀ h, s.reader.handle = some h → h < s.nextHandle
  handle_open : ∀ h, s.reader.handle = some h → h ∉ s.closed
  closed_lt : ∀ h ∈ s.closed, h < s.nextHandle
  late : s.lateRead = true → s.cancelled = true ∧ s.reader.sectionHandle = none
  broke : ∀ k, s.cancellers k = .broke → s.cancelled = true ∧ s.reader.mayBlock = false

theorem inv_init : Inv init where
  seen := rfl
  handle := rfl
  handle_lt := by simp [init, Reader.handle]
  handle_open := by simp [init, Reader.handle]
  closed_lt := by simp [init]
  late := by simp [init]
  broke := by simp [init]

theorem mayBlock_eq_false_of_sectionHandle {r : Reader} (h : r.sectionHandle = none) :
    r.mayBlock = false := by
  cases r <;> simp_all [Reader.sectionHandle, Reader.mayBlock]

/-- A canceller that is out of its loop after thread `k` has moved to `c`. -/
theorem update_eq_broke {f : ℕ → Canceller} {k j : ℕ} {c : Canceller}
    (h : Function.update f k c j = .broke) : c = .broke ∨ f j = .broke := by
  by_cases hj : j = k
  · subst hj
    exact Or.inl (by simpa using h)
  · exact Or.inr (by simpa [hj] using h)

theorem inv_step {s s' : State} {a : Label} (hI : Inv s) (h : Step s a s') : Inv s' := by
  cases h with
  | openThread hr =>
      refine { hI with
        handle := ?_, handle_lt := ?_, handle_open := ?_, closed_lt := ?_, late := ?_, broke := ?_ }
      · simpa [hr, Reader.sectionHandle] using hI.handle
      · intro h hh
        cases hh
        exact Nat.lt_succ_self _
      · intro h hh hmem
        cases hh
        exact absurd (hI.closed_lt _ hmem) (Nat.lt_irrefl _)
      · exact fun h hmem => (hI.closed_lt h hmem).trans (Nat.lt_succ_self _)
      · exact fun hl => ⟨hI.seen.symm.trans hl, rfl⟩
      · exact fun k hk => ⟨(hI.broke k hk).1, rfl⟩
  | @refused handle hr hc =>
      refine { hI with
        handle := ?_, handle_lt := ?_, handle_open := ?_, late := ?_, broke := ?_ }
      · simpa [hr, Reader.sectionHandle] using hI.handle
      · exact fun h hh => hI.handle_lt h (by simpa [hr, Reader.handle] using hh)
      · exact fun h hh => hI.handle_open h (by simpa [hr, Reader.handle] using hh)
      · exact fun _ => ⟨hc, rfl⟩
      · exact fun _ _ => ⟨hc, rfl⟩
  | @registered handle hr hc =>
      refine { hI with
        handle := rfl, handle_lt := ?_, handle_open := ?_, late := ?_, broke := ?_ }
      · exact fun h hh => hI.handle_lt h (by simpa [hr, Reader.handle] using hh)
      · exact fun h hh => hI.handle_open h (by simpa [hr, Reader.handle] using hh)
      · exact fun hl => absurd (hI.late hl).1 (by simp [hc])
      · exact fun k hk => absurd (hI.broke k hk).1 (by simp [hc])
  | @platformRead handle hr =>
      refine { hI with
        handle := ?_, handle_lt := ?_, handle_open := ?_, late := ?_, broke := ?_ }
      · simpa [hr, Reader.sectionHandle] using hI.handle
      · exact fun h hh => hI.handle_lt h (by simpa [hr, Reader.handle] using hh)
      · exact fun h hh => hI.handle_open h (by simpa [hr, Reader.handle] using hh)
      · exact fun hl => absurd (hI.late hl).2 (by simp [hr, Reader.sectionHandle])
      · exact fun k hk => absurd (hI.broke k hk).2 (by simp [hr, Reader.mayBlock])
  | @platformReturn handle aborted bytes hr =>
      refine { hI with
        handle := ?_, handle_lt := ?_, handle_open := ?_, late := ?_, broke := ?_ }
      · simpa [hr, Reader.sectionHandle] using hI.handle
      · exact fun h hh => hI.handle_lt h (by simpa [hr, Reader.handle] using hh)
      · exact fun h hh => hI.handle_open h (by simpa [hr, Reader.handle] using hh)
      · exact fun hl => absurd (hI.late hl).2 (by simp [hr, Reader.sectionHandle])
      · exact fun k hk => ⟨(hI.broke k hk).1, rfl⟩
  | @lastSection handle bytes hr =>
      refine { hI with
        handle := rfl, handle_lt := ?_, handle_open := ?_, late := ?_, broke := ?_ }
      · exact fun h hh => hI.handle_lt h (by simpa [hr, Reader.handle] using hh)
      · exact fun h hh => hI.handle_open h (by simpa [hr, Reader.handle] using hh)
      · exact fun hl => ⟨(hI.late hl).1, rfl⟩
      · exact fun k hk => ⟨(hI.broke k hk).1, rfl⟩
  | @closeHandle handle outcome hr =>
      have hlt := hI.handle_lt handle (by simp [hr, Reader.handle])
      refine { hI with
        handle := ?_, handle_lt := ?_, handle_open := ?_, closed_lt := ?_, late := ?_, broke := ?_ }
      · simpa [hr, Reader.sectionHandle] using hI.handle
      · simp [Reader.handle]
      · simp [Reader.handle]
      · intro h hmem
        rcases List.mem_cons.mp hmem with rfl | hmem
        · exact hlt
        · exact hI.closed_lt h hmem
      · exact fun hl => ⟨(hI.late hl).1, rfl⟩
      · exact fun k hk => ⟨(hI.broke k hk).1, rfl⟩
  | cancelCall k =>
      refine { hI with broke := ?_ }
      intro j hj
      exact hI.broke j ((update_eq_broke hj).resolve_left (by decide))
  | noRead k answer hnone =>
      have hsection : s.reader.sectionHandle = none := hI.handle ▸ hnone
      exact { hI with
        seen := rfl
        late := fun _ => ⟨rfl, hsection⟩
        broke := fun _ _ => ⟨rfl, mayBlock_eq_false_of_sectionHandle hsection⟩ }
  | retry k hsome =>
      refine { hI with seen := rfl, late := ?_, broke := ?_ }
      · exact fun hl => ⟨rfl, (hI.late hl).2⟩
      · intro j hj
        exact ⟨rfl, (hI.broke j ((update_eq_broke hj).resolve_left (by decide))).2⟩
  | @abort handle k hsome hr =>
      refine { hI with
        seen := rfl, handle := hsome, handle_lt := ?_, handle_open := ?_, late := ?_, broke := ?_ }
      · exact fun h hh => hI.handle_lt h (by simpa [hr, Reader.handle] using hh)
      · exact fun h hh => hI.handle_open h (by simpa [hr, Reader.handle] using hh)
      · exact fun hl => absurd (hI.late hl).2 (by simp [hr, Reader.sectionHandle])
      · exact fun _ _ => ⟨rfl, rfl⟩
  | cancelReturn k hk =>
      refine { hI with broke := ?_ }
      intro j hj
      exact hI.broke j ((update_eq_broke hj).resolve_left (by decide))

/-- What the documentation of `cancel` promises of one transition. -/
structure Contract (s : State) (a : Label) (s' : State) : Prop where
  /-- A read whose last section follows a section of some `cancel` throws. -/
  last : a = .lastSection → s.cancelSeen = true →
    ∃ h, s'.reader = .leaving h .cancelledException
  /-- A read entered after such a section throws, and never calls `platform.read`. -/
  late : s.lateRead = true → a ≠ .platformRead ∧
    (a = .firstSection → ∃ h, s'.reader = .leaving h .cancelledException)
  /-- `cancel_io` gets the open handle of a read that is between its sections. -/
  cancelIo : ∀ k answer handle, a = .cancelSection k answer → s.threadHandle = some handle →
    s.reader.sectionHandle = some handle ∧ handle ∉ s.closed
  /-- When `cancel` returns, no pending `platform.read` is left alone. -/
  returned : ∀ k, a = .cancelReturn k → s.reader.mayBlock = false

theorem handle_of_sectionHandle {r : Reader} {h : ℕ} (hs : r.sectionHandle = some h) :
    r.handle = some h := by
  cases r <;> simp_all [Reader.sectionHandle, Reader.handle]

theorem contract_step {s s' : State} {a : Label} (hI : Inv s) (h : Step s a s') :
    Contract s a s' where
  last := by
    rintro rfl hseen
    cases h with
    | @lastSection handle bytes hr =>
        have hc : s.cancelled = true := hI.seen.symm.trans hseen
        exact ⟨handle, by simp [hc]⟩
  late := by
    intro hl
    obtain ⟨hc, hsection⟩ := hI.late hl
    refine ⟨?_, ?_⟩
    · rintro rfl
      cases h with
      | platformRead hr => simp [hr, Reader.sectionHandle] at hsection
    · rintro rfl
      cases h with
      | @refused handle hr _ => exact ⟨handle, rfl⟩
      | registered hr hc' => simp [hc] at hc'
  cancelIo := by
    intro k answer handle _ hsome
    have hsection : s.reader.sectionHandle = some handle := hI.handle.symm.trans hsome
    exact ⟨hsection, hI.handle_open handle (handle_of_sectionHandle hsection)⟩
  returned := by
    rintro k rfl
    cases h with
    | cancelReturn k hk => exact (hI.broke k hk).2

/-- Every transition of every run honours the contract. -/
theorem cancellable_read_contract (as : List Label) : Through step Contract init as :=
  through_of_step Inv
    (fun _ _ _ hI h => ⟨inv_step hI (step_cases h), contract_step hI (step_cases h)⟩) inv_init as

-- `cancel_io` finds the read at its second try; the read throws although a byte has come
example : (run step init [.openThread, .firstSection, .cancelCall 0, .cancelSection 0 false,
      .platformRead, .cancelSection 0 true, .cancelReturn 0, .platformReturn 1,
      .lastSection]).map State.reader =
    some (.leaving 1 .cancelledException) := by
  decide

end CohesionIpc.CancellableRead.Win32
