import CohesionIpc.Model.CancellableRead.Unix

/-! The contract of `cancellable_read` on Unix holds in exactly the runs in which no
`cancel` overtakes a `select` that has already chosen the data. -/

namespace CohesionIpc.CancellableRead.Unix

open Transition

/-- The reader can come out of its current call by steps of its own. -/
def CanFinish (s : State) : Prop :=
  ∃ as t, (∀ a ∈ as, a.ofReader = true) ∧ run step s as = some t ∧ t.reader = .outside

/-- What the documentation of `cancel` promises of one transition. -/
structure Contract (s : State) (a : Label) (s' : State) : Prop where
  /-- A read begun after a `cancel` has returned consumes nothing. -/
  late_consumes : s.begunLate = true → a.ofReader = true → s'.available = s.available
  /-- Such a read ends with the exception. -/
  late_throws : s'.begunLate = true → ∀ outcome, s'.reader = .finished outcome →
    outcome = .cancelledException
  /-- A read during which `cancel` is called ends with the exception. -/
  overtaken_throws : s'.overtaken = true → ∀ outcome, s'.reader = .finished outcome →
    outcome = .cancelledException
  /-- Once some `cancel` has returned, the reader needs nothing from the peer to finish. -/
  can_finish : 0 < s'.cancels → CanFinish s'

/-- `cancel` is not called while the reader is committed to the data. -/
def Admitted (s : State) (a : Label) : Prop :=
  a = .cancel → s.reader.committed = false

/-! ## Reads begun after a cancellation -/

theorem committed_eq_false_of_finished {r : Reader} {outcome : Outcome}
    (hr : r.committed = false) (h : r = .finished outcome) : outcome = .cancelledException := by
  subst h
  cases outcome with
  | bytesRead bytes => simp [Reader.committed] at hr
  | cancelledException => rfl

/-- A transition that leaves the reader uncommitted when the signal is up does so whatever
the transition was. -/
theorem uncommitted_step {s s' : State} {a : Label} (h : Step s a s') (hc : 0 < s.cancels)
    (hr : s.reader.committed = false) : s'.reader.committed = false := by
  cases h with
  | readCall | signalled | dataNotReady | readReturn => rfl
  | selectInterrupted | cancel | arrive | close => exact hr
  | select => simp [Reader.committed, State.signalReady, hc]
  | @unsignalled size data h => cases data <;> simp_all [Reader.committed]
  | dataReady h | readSome n h | readEof h | freadReturn h => simp [h, Reader.committed] at hr

/-- A read begun late has seen the signal, whether or not the run is admitted. -/
def LateInv (s : State) : Prop :=
  s.begunLate = true → 0 < s.cancels ∧ s.reader.committed = false

theorem lateInv_step {s s' : State} {a : Label} (hI : LateInv s) (h : Step s a s') :
    LateInv s' := by
  intro hl
  have hstep := h
  cases h with
  | readCall size h => exact ⟨of_decide_eq_true hl, rfl⟩
  | cancel => exact ⟨Nat.succ_pos _, (hI hl).2⟩
  | selectInterrupted | select | signalled | unsignalled | dataReady | dataNotReady | readSome
  | readEof | freadReturn | readReturn | arrive | close =>
      exact ⟨(hI hl).1, uncommitted_step hstep (hI hl).1 (hI hl).2⟩

/-! ## Admitted runs -/

/-- Once the signal is up the reader is not committed; an overtaken read saw it go up. -/
structure Inv (s : State) : Prop where
  late : LateInv s
  overtaken : s.overtaken = true → 0 < s.cancels
  signalled : 0 < s.cancels → s.reader.committed = false

theorem inv_init : Inv init := ⟨by simp [LateInv, init], by simp [init], by simp [init]⟩

theorem inv_step {s s' : State} {a : Label} (hI : Inv s) (ha : Admitted s a) (h : Step s a s') :
    Inv s' := by
  refine ⟨lateInv_step hI.late h, ?_, ?_⟩
  · intro ho
    cases h with
    | readCall => exact absurd ho (by simp)
    | cancel => exact Nat.succ_pos _
    | selectInterrupted | select | signalled | unsignalled | dataReady | dataNotReady | readSome
    | readEof | freadReturn | readReturn | arrive | close => exact hI.overtaken ho
  · intro hc
    by_cases hcancel : a = .cancel
    · subst hcancel
      cases h with
      | cancel => exact ha rfl
    · refine uncommitted_step h ?_ (hI.signalled ?_) <;>
        cases h <;> first | exact hc | exact absurd rfl hcancel

theorem canFinish_of_step {s : State} (a : Label) (s' : State) (ha : a.ofReader = true)
    (h : step s a = some s') (hs : CanFinish s') : CanFinish s := by
  obtain ⟨as, t, has, hrun, ht⟩ := hs
  refine ⟨a :: as, t, ?_, run_cons_eq_some.mpr ⟨s', h, hrun⟩, ht⟩
  intro b hb
  rcases List.mem_cons.mp hb with rfl | hb
  · exact ha
  · exact has b hb

theorem canFinish_of_finished {s : State} {outcome : Outcome}
    (h : s.reader = .finished outcome) : CanFinish s :=
  canFinish_of_step .readReturn { s with reader := .outside } rfl
    (by simp only [step, h]) ⟨[], _, by simp, rfl, rfl⟩

theorem canFinish_of_selecting {s : State} {size : ℕ} (hc : 0 < s.cancels)
    (h : s.reader = .selecting size) : CanFinish s := by
  have hready : s.signalReady = true := decide_eq_true hc
  refine canFinish_of_step .select
    { s with reader := .selected size true s.dataReady } rfl (by simp [step, h, hready]) ?_
  exact canFinish_of_step .testSignal
    { s with reader := .finished .cancelledException } rfl rfl (canFinish_of_finished rfl)

/-- With the signal up, a reader that is not committed gets out by itself. -/
theorem canFinish_of_uncommitted {s : State} (hc : 0 < s.cancels)
    (hr : s.reader.committed = false) : CanFinish s := by
  cases h : s.reader with
  | outside => exact ⟨[], s, by simp, rfl, h⟩
  | selecting size => exact canFinish_of_selecting hc h
  | selected size signal data =>
      cases signal with
      | true =>
          exact canFinish_of_step .testSignal
            { s with reader := .finished .cancelledException } rfl (by simp [step, h])
            (canFinish_of_finished rfl)
      | false =>
          cases data with
          | true => simp [h, Reader.committed] at hr
          | false =>
              refine canFinish_of_step .testSignal
                { s with reader := .unsignalled size false } rfl (by simp [step, h]) ?_
              exact canFinish_of_step .testData
                { s with reader := .selecting size } rfl rfl (canFinish_of_selecting hc rfl)
  | unsignalled size data =>
      cases data with
      | true => simp [h, Reader.committed] at hr
      | false =>
          exact canFinish_of_step .testData { s with reader := .selecting size } rfl
            (by simp [step, h]) (canFinish_of_selecting hc rfl)
  | reading size got eof => simp [h, Reader.committed] at hr
  | finished outcome => exact canFinish_of_finished h

theorem available_of_uncommitted {s s' : State} {a : Label} (h : Step s a s')
    (ha : a.ofReader = true) (hr : s.reader.committed = false) : s'.available = s.available := by
  cases h with
  | readSome n h => simp [h, Reader.committed] at hr
  | arrive => simp [Label.ofReader] at ha
  | _ => rfl

theorem contract_step {s s' : State} {a : Label} (hI : Inv s) (ha : Admitted s a)
    (h : Step s a s') : Contract s a s' := by
  have hI' := inv_step hI ha h
  refine ⟨?_, ?_, ?_, ?_⟩
  · exact fun hl ho => available_of_uncommitted h ho (hI.late hl).2
  · exact fun hl outcome hr => committed_eq_false_of_finished (hI'.late hl).2 hr
  · exact fun ho outcome hr =>
      committed_eq_false_of_finished (hI'.signalled (hI'.overtaken ho)) hr
  · exact fun hc => canFinish_of_uncommitted hc (hI'.signalled hc)

/-! ## A cancellation that comes too late -/

/-- A committed reader stays committed until its read returns. -/
theorem committed_step {s s' : State} {a : Label} (h : Step s a s')
    (hr : s.reader.committed = true) (ha : a ≠ .readReturn) : s'.reader.committed = true := by
  cases h with
  | @unsignalled size data h => cases data <;> simp_all [Reader.committed]
  | dataReady | readSome | readEof | freadReturn => rfl
  | selectInterrupted | cancel | arrive | close => exact hr
  | readReturn => exact absurd rfl ha
  | readCall size h | select h hready | signalled h | dataNotReady h =>
      simp [h, Reader.committed] at hr

theorem overtaken_step {s s' : State} {a : Label} (h : Step s a s')
    (ho : s.overtaken = true) (hr : s.reader.committed = true) : s'.overtaken = true := by
  cases h with
  | readCall size h => simp [h, Reader.committed] at hr
  | cancel => simp [ho]
  | _ => exact ho

/-- `fread` never stores more than it was asked for. -/
def ReadingInv (s : State) : Prop :=
  ∀ size got eof, s.reader = .reading size got eof → got.length ≤ size

theorem readingInv_step {s s' : State} {a : Label} (hI : ReadingInv s) (h : Step s a s') :
    ReadingInv s' := by
  intro size got eof hr
  cases h with
  | dataReady => cases hr; exact Nat.zero_le _
  | readSome n h hn =>
      cases hr
      rw [List.length_append, List.length_take_of_le hn.2.1]
      exact hn.2.2
  | readEof h heof => cases hr; exact heof.2.2.le
  | selectInterrupted | cancel | arrive | close => exact hI size got eof hr
  | readCall | select | signalled | unsignalled | dataNotReady | freadReturn | readReturn =>
      cases hr

/-- The read in progress can go on to return bytes without another `cancel`. -/
def Completes (s : State) : Prop :=
  ∃ as t bytes, Label.cancel ∉ as ∧ Label.readReturn ∉ as ∧ run step s as = some t ∧
    t.reader = .finished (.bytesRead bytes)

theorem completes_of_step {s : State} (a : Label) (s' : State) (hc : a ≠ .cancel)
    (hr : a ≠ .readReturn)
    (h : step s a = some s') (hs : Completes s') : Completes s := by
  obtain ⟨as, t, bytes, hcancel, hreturn, hrun, ht⟩ := hs
  refine ⟨a :: as, t, bytes, ?_, ?_, run_cons_eq_some.mpr ⟨s', h, hrun⟩, ht⟩
  · simp [hc.symm, hcancel]
  · simp [hr.symm, hreturn]

theorem completes_of_fread_end {s : State} {size : ℕ} {got : List UInt8} {eof : Bool}
    (h : s.reader = .reading size got eof) (hend : got.length = size ∨ eof = true) :
    Completes s :=
  completes_of_step .freadReturn { s with reader := .finished (.bytesRead got) }
    (by decide) (by decide) (by simp [step, h, hend]) ⟨[], _, got, by simp, by simp, rfl, rfl⟩

theorem completes_of_closed {s : State} {size : ℕ} {got : List UInt8}
    (h : s.reader = .reading size got false) (hlen : got.length < size)
    (hempty : s.available = []) (hclosed : s.closed = true) : Completes s :=
  completes_of_step .readEof { s with reader := .reading size got true }
    (by decide) (by decide) (by simp [step, h, hempty, hclosed, hlen])
    (completes_of_fread_end rfl (Or.inr rfl))

/-- Whatever `fread` still lacks, the peer can send it or end the stream. -/
theorem completes_of_reading {s : State} {size : ℕ} {got : List UInt8} {eof : Bool}
    (h : s.reader = .reading size got eof) (hlen : got.length ≤ size) : Completes s := by
  cases eof with
  | true => exact completes_of_fread_end h (Or.inr rfl)
  | false =>
      by_cases hfull : got.length = size
      · exact completes_of_fread_end h (Or.inl hfull)
      · have hlt : got.length < size := lt_of_le_of_ne hlen hfull
        by_cases henough : size - got.length ≤ s.available.length
        · refine completes_of_step (.readSome (size - got.length)) { s with
            available := s.available.drop (size - got.length)
            reader := .reading size (got ++ s.available.take (size - got.length)) false }
            (by simp) (by simp) ?_ (completes_of_fread_end rfl (Or.inl ?_))
          · have hn : 0 < size - got.length ∧ size - got.length ≤ s.available.length ∧
                got.length + (size - got.length) ≤ size := ⟨by omega, henough, by omega⟩
            simp only [step, h, hn, and_self, if_true]
          · rw [List.length_append, List.length_take_of_le henough]
            omega
        · -- the peer ends the stream, and `fread` takes what is there before it sees the end
          refine completes_of_step .close { s with closed := true }
            (by decide) (by decide) rfl ?_
          by_cases hempty : s.available = []
          · exact completes_of_closed (s := { s with closed := true }) h hlt hempty rfl
          · have hpos : 0 < s.available.length := List.length_pos_iff.mpr hempty
            refine completes_of_step (.readSome s.available.length) { s with
              closed := true
              available := s.available.drop s.available.length
              reader := .reading size (got ++ s.available.take s.available.length) false }
              (by simp) (by simp) ?_ (completes_of_closed rfl ?_ (List.drop_length ..) rfl)
            · have hn : 0 < s.available.length ∧ s.available.length ≤ s.available.length ∧
                  got.length + s.available.length ≤ size := ⟨hpos, le_rfl, by omega⟩
              simp only [step, h, hn, and_self, if_true]
            · rw [List.take_length, List.length_append]
              omega

theorem completes_of_committed {s : State} (hI : ReadingInv s) (hr : s.reader.committed = true) :
    Completes s := by
  cases h : s.reader with
  | outside | selecting => simp [h, Reader.committed] at hr
  | selected size signal data =>
      cases signal <;> cases data <;> simp [h, Reader.committed] at hr
      refine completes_of_step .testSignal { s with reader := .unsignalled size true }
        (by decide) (by decide) (by simp [step, h]) ?_
      exact completes_of_step .testData { s with reader := .reading size [] false }
        (by decide) (by decide) rfl (completes_of_reading rfl (Nat.zero_le _))
  | unsignalled size data =>
      cases data <;> simp [h, Reader.committed] at hr
      exact completes_of_step .testData { s with reader := .reading size [] false }
        (by decide) (by decide) (by simp [step, h]) (completes_of_reading rfl (Nat.zero_le _))
  | reading size got eof => exact completes_of_reading h (hI size got eof h)
  | finished outcome =>
      cases outcome with
      | cancelledException => simp [h, Reader.committed] at hr
      | bytesRead bytes => exact ⟨[], s, bytes, by simp, by simp, rfl, h⟩

theorem committed_run {s t : State} {as : List Label} (hrun : run step s as = some t)
    (hreturn : Label.readReturn ∉ as) (ho : s.overtaken = true) (hr : s.reader.committed = true) :
    t.overtaken = true ∧ t.reader.committed = true := by
  induction as generalizing s with
  | nil =>
      cases hrun
      exact ⟨ho, hr⟩
  | cons a as ih =>
      obtain ⟨s', hs, hr'⟩ := run_cons_eq_some.mp hrun
      simp only [List.mem_cons, not_or] at hreturn
      exact ih hr' hreturn.2 (overtaken_step (step_cases hs) ho hr)
        (committed_step (step_cases hs) hr (Ne.symm hreturn.1))

/-- A read that was committed when `cancel` was called and came out with bytes broke the
contract on the way. -/
theorem not_through_of_bytesRead {s t : State} {as : List Label} {bytes : List UInt8}
    (hr : s.reader.committed = true) (hrun : run step s (.cancel :: as) = some t)
    (hreturn : Label.readReturn ∉ as) (ht : t.reader = .finished (.bytesRead bytes)) :
    ¬ Through step Contract s (.cancel :: as) := by
  intro hthrough
  obtain ⟨s', hs, hr'⟩ := run_cons_eq_some.mp hrun
  cases hs
  have hne : s.reader ≠ .outside := by
    rintro h
    simp [h, Reader.committed] at hr
  have ho : t.overtaken = true := (committed_run hr' hreturn (by simp [hne]) hr).1
  obtain ⟨pre, a, hlast⟩ : ∃ pre a, Label.cancel :: as = pre ++ [a] :=
    ⟨_, _, (List.dropLast_append_getLast (List.cons_ne_nil _ _)).symm⟩
  rw [hlast] at hthrough hrun
  obtain ⟨m, hm⟩ := through_concat hthrough hrun
  exact Outcome.noConfusion (hm.overtaken_throws ho _ ht)

/-- A committed read that returns comes out with bytes. -/
theorem bytesRead_of_readReturn {s n n' : State} {as : List Label}
    (hr : s.reader.committed = true) (hrun : run step s (.cancel :: as) = some n)
    (has : Label.readReturn ∉ as) (h : Step n .readReturn n') :
    ∃ bytes, n.reader = .finished (.bytesRead bytes) := by
  obtain ⟨s', hs, hr'⟩ := run_cons_eq_some.mp hrun
  cases hs
  have hne : s.reader ≠ .outside := by
    intro hout
    simp [hout, Reader.committed] at hr
  have hcommitted := (committed_run hr' has (by simp [hne]) hr).2
  cases h with
  | @readReturn outcome hout =>
      cases outcome with
      | bytesRead bytes => exact ⟨bytes, hout⟩
      | cancelledException => simp [hout, Reader.committed] at hcommitted

theorem readingInv_run {t : State} {as : List Label} (hrun : run step init as = some t) :
    ReadingInv t :=
  run_invariant_of_step ReadingInv (fun _ _ _ hI h => readingInv_step hI (step_cases h))
    (by simp [ReadingInv, init]) hrun

/-- The documented contract holds in a run, however the read in progress is continued without
a further `cancel`, if and only if no `cancel` of the run is called while the reader is past
a `select` that did not see the signal. -/
theorem contract_iff_admitted {s : State} {as : List Label} (hrun : run step init as = some s) :
    (∀ bs, Label.cancel ∉ bs → Through step Contract init (as ++ bs)) ↔
      Along step Admitted init as := by
  constructor
  · intro h
    rw [along_iff_forall_split]
    rintro pre a post m rfl hm rfl
    by_contra hcommitted
    have hr : m.reader.committed = true := by simpa using hcommitted
    obtain ⟨m', hm', hpost⟩ := run_append_eq_some.mp hrun
    cases hm.symm.trans hm'
    by_cases hmem : Label.readReturn ∈ post
    · obtain ⟨first, rest, rfl, hfirst⟩ := List.eq_append_cons_of_mem hmem
      rw [← List.cons_append] at hpost
      obtain ⟨n, hn, hrest⟩ := run_append_eq_some.mp hpost
      obtain ⟨n', hreturn, -⟩ := run_cons_eq_some.mp hrest
      obtain ⟨bytes, hbytes⟩ := bytesRead_of_readReturn hr hn hfirst (step_cases hreturn)
      have hthrough := h [] (by simp)
      rw [List.append_nil] at hthrough
      have hsuffix := through_append hthrough hm
      rw [← List.cons_append] at hsuffix
      exact not_through_of_bytesRead hr hn hfirst hbytes hsuffix.of_append
    · obtain ⟨m₁, hcancel, hrest⟩ := run_cons_eq_some.mp hpost
      cases hcancel
      have hne : m.reader ≠ .outside := by
        intro hout
        simp [hout, Reader.committed] at hr
      have hend := (committed_run hrest hmem (by simp [hne]) hr).2
      obtain ⟨bs, t, bytes, hbs, hret, hrun', ht⟩ :=
        completes_of_committed (readingInv_run hrun) hend
      have hthrough := through_append (by simpa [List.append_assoc] using h bs hbs) hm
      refine not_through_of_bytesRead hr ?_
        (show Label.readReturn ∉ post ++ bs by simp [hmem, hret]) ht hthrough
      rw [← List.cons_append, run_append, hpost]
      exact hrun'
  · intro h bs hbs
    have hnoCancel : ∀ m, run step init as = some m → Along step Admitted m bs := by
      intro m _
      refine along_of_forall (fun a ha n => ?_) m
      rintro rfl
      exact absurd ha hbs
    exact through_of_along Inv
      (fun _ _ _ hI ha hs =>
        ⟨inv_step hI ha (step_cases hs), contract_step hI ha (step_cases hs)⟩)
      inv_init (h.append hnoCancel)

theorem contract_iff_admitted_signalled_read :
    run step init [.readCall 1, .cancel, .select, .testSignal, .readReturn] =
        some ⟨[], false, 1, .outside, false, true⟩ ∧
      ((∀ bs, Label.cancel ∉ bs → Through step Contract init
          ([.readCall 1, .cancel, .select, .testSignal, .readReturn] ++ bs)) ↔
        Along step Admitted init [.readCall 1, .cancel, .select, .testSignal, .readReturn]) :=
  ⟨rfl, contract_iff_admitted rfl⟩

/-- A `cancel` between `select` and `fread` is followed by a read that returns normally, and
a `cancel` during a partly satisfied `fread` leaves the reader blocked. -/
theorem cancel_misses_reader :
    ¬ Through step Contract init [.readCall 1, .arrive [7], .select, .cancel, .testSignal,
        .testData, .readSome 1, .freadReturn] ∧
      ∃ t, run step init [.readCall 4, .arrive [7], .select, .testSignal, .testData, .readSome 1,
        .cancel] = some t ∧ ¬ CanFinish t := by
  constructor
  · intro h
    have hrun : run step init [.readCall 1, .arrive [7], .select, .cancel, .testSignal, .testData,
        .readSome 1, .freadReturn] =
      some ⟨[], false, 1, .finished (.bytesRead [7]), false, true⟩ := rfl
    rw [← List.dropLast_append_getLast (List.cons_ne_nil _ _)] at h hrun
    obtain ⟨m, hm⟩ := through_concat h hrun
    exact Outcome.noConfusion (hm.overtaken_throws rfl _ rfl)
  · refine ⟨⟨[], false, 1, .reading 4 [7] false, false, true⟩, rfl, ?_⟩
    rintro ⟨as, t, has, hrun, ht⟩
    cases as with
    | nil =>
        cases hrun
        cases ht
    | cons a as =>
        obtain ⟨s', hs, -⟩ := run_cons_eq_some.mp hrun
        have ha := has a (by simp)
        cases step_cases hs with
        | readSome n h hn => simp at hn; omega
        | readEof h heof => simp at heof
        | freadReturn h hend => cases h; simp at hend
        | cancel | arrive | close => cases ha
        | readCall _ h | selectInterrupted h | select h | signalled h | unsignalled h | dataReady h
        | dataNotReady h | readReturn h => cases h

end CohesionIpc.CancellableRead.Unix
