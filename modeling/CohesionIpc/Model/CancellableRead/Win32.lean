import CohesionIpc.Foundation.Transition
import Mathlib.Logic.Function.Basic

/-! `cancellable_read::impl` on Windows: one reader thread, any number of cancelling
threads. Code under `_mtx` is one step; `platform.read` runs between two of them.
`OpenThread` succeeds. -/

namespace CohesionIpc.CancellableRead.Win32

/-- How a call of `read` ends. -/
inductive Outcome
  | bytesRead (n : ℕ)
  | cancelledException
deriving DecidableEq, Repr

/-- Where the reader thread is. The number names the handle that `OpenThread` gave. -/
inductive Reader
  | outside
  | opened (handle : ℕ)
  | registered (handle : ℕ)
  | reading (handle : ℕ) (aborted : Bool)
  | finished (handle : ℕ) (bytes : ℕ)
  | leaving (handle : ℕ) (outcome : Outcome)
deriving DecidableEq, Repr

/-- Where a cancelling thread is. -/
inductive Canceller
  | outside
  | entered
  | retrying
  | broke
deriving DecidableEq, Repr

inductive Label
  | openThread
  | firstSection
  | platformRead
  | platformReturn (bytes : ℕ)
  | lastSection
  | closeHandle
  | cancelCall (k : ℕ)
  | cancelSection (k : ℕ) (answer : Bool)
  | cancelReturn (k : ℕ)
deriving DecidableEq, Repr

/-- The fields of `impl` and the threads. The last three fields are observations:
the handles closed so far, whether a section of some `cancel` has been executed, and
whether the read in progress was entered after such a section. -/
structure State where
  cancelled : Bool
  threadHandle : Option ℕ
  reader : Reader
  cancellers : ℕ → Canceller
  nextHandle : ℕ
  closed : List ℕ
  cancelSeen : Bool
  lateRead : Bool

def init : State where
  cancelled := false
  threadHandle := none
  reader := .outside
  cancellers _ := .outside
  nextHandle := 1
  closed := []
  cancelSeen := false
  lateRead := false

/-- `cancel_io` answers true only when it aborts the `platform.read` pending on the thread. -/
def Reader.abort : Reader → ℕ → Option Reader
  | .reading h false, handle => if h = handle then some (.reading h true) else none
  | _, _ => none

/-- The critical section of `cancel`, executed by thread `k` with the given answer of
`cancel_io` where that is called. -/
def cancelSection (s : State) (k : ℕ) (answer : Bool) : Option State :=
  match s.threadHandle, answer with
  | none, _ => some { s with
      cancelled := true, cancelSeen := true, cancellers := Function.update s.cancellers k .broke }
  | some _, false => some { s with
      cancelled := true, cancelSeen := true
      cancellers := Function.update s.cancellers k .retrying }
  | some handle, true => (s.reader.abort handle).map fun reader => { s with
      cancelled := true, cancelSeen := true, reader := reader
      cancellers := Function.update s.cancellers k .broke }

def step (s : State) : Label → Option State
  | .openThread =>
      match s.reader with
      | .outside => some { s with
          reader := .opened s.nextHandle, nextHandle := s.nextHandle + 1, lateRead := s.cancelSeen }
      | _ => none
  | .firstSection =>
      match s.reader with
      | .opened h =>
          if s.cancelled then some { s with reader := .leaving h .cancelledException }
          else some { s with reader := .registered h, threadHandle := some h }
      | _ => none
  | .platformRead =>
      match s.reader with
      | .registered h => some { s with reader := .reading h false }
      | _ => none
  | .platformReturn bytes =>
      match s.reader with
      | .reading h _ => some { s with reader := .finished h bytes }
      | _ => none
  | .lastSection =>
      match s.reader with
      | .finished h bytes =>
          let outcome := if s.cancelled then .cancelledException else .bytesRead bytes
          some { s with threadHandle := none, reader := .leaving h outcome }
      | _ => none
  | .closeHandle =>
      match s.reader with
      | .leaving h _ => some { s with reader := .outside, closed := h :: s.closed }
      | _ => none
  | .cancelCall k =>
      match s.cancellers k with
      | .outside => some { s with cancellers := Function.update s.cancellers k .entered }
      | _ => none
  | .cancelSection k answer =>
      match s.cancellers k with
      | .entered | .retrying => cancelSection s k answer
      | _ => none
  | .cancelReturn k =>
      match s.cancellers k with
      | .broke => some { s with cancellers := Function.update s.cancellers k .outside }
      | _ => none

/-- The handle of a read that is between its two critical sections. -/
def Reader.sectionHandle : Reader → Option ℕ
  | .registered h | .reading h _ | .finished h _ => some h
  | _ => none

/-- The handle a read in progress owns. -/
def Reader.handle : Reader → Option ℕ
  | .outside => none
  | .opened h | .registered h | .reading h _ | .finished h _ | .leaving h _ => some h

/-- A `platform.read` of this reader is yet to start or pending without having been aborted. -/
def Reader.mayBlock : Reader → Bool
  | .registered _ | .reading _ false => true
  | _ => false

/-! ## What each step can do -/

/-- The transitions, one rule per branch of the source. -/
inductive Step (s : State) : Label → State → Prop
  | openThread (h : s.reader = .outside) : Step s .openThread { s with
      reader := .opened s.nextHandle, nextHandle := s.nextHandle + 1, lateRead := s.cancelSeen }
  | refused {handle : ℕ} (h : s.reader = .opened handle) (hc : s.cancelled = true) :
      Step s .firstSection { s with reader := .leaving handle .cancelledException }
  | registered {handle : ℕ} (h : s.reader = .opened handle) (hc : s.cancelled = false) :
      Step s .firstSection { s with reader := .registered handle, threadHandle := some handle }
  | platformRead {handle : ℕ} (h : s.reader = .registered handle) :
      Step s .platformRead { s with reader := .reading handle false }
  | platformReturn {handle : ℕ} {aborted : Bool} (bytes : ℕ)
      (h : s.reader = .reading handle aborted) :
      Step s (.platformReturn bytes) { s with reader := .finished handle bytes }
  | lastSection {handle bytes : ℕ} (h : s.reader = .finished handle bytes) :
      Step s .lastSection { s with
        threadHandle := none
        reader := .leaving handle (if s.cancelled then .cancelledException else .bytesRead bytes) }
  | closeHandle {handle : ℕ} {outcome : Outcome} (h : s.reader = .leaving handle outcome) :
      Step s .closeHandle { s with reader := .outside, closed := handle :: s.closed }
  | cancelCall (k : ℕ) : Step s (.cancelCall k)
      { s with cancellers := Function.update s.cancellers k .entered }
  | noRead (k : ℕ) (answer : Bool) (h : s.threadHandle = none) : Step s (.cancelSection k answer)
      { s with
        cancelled := true, cancelSeen := true
        cancellers := Function.update s.cancellers k .broke }
  | retry {handle : ℕ} (k : ℕ) (h : s.threadHandle = some handle) : Step s (.cancelSection k false)
      { s with
        cancelled := true, cancelSeen := true
        cancellers := Function.update s.cancellers k .retrying }
  | abort {handle : ℕ} (k : ℕ) (h : s.threadHandle = some handle)
      (hr : s.reader = .reading handle false) : Step s (.cancelSection k true) { s with
        cancelled := true, cancelSeen := true, reader := .reading handle true
        cancellers := Function.update s.cancellers k .broke }
  | cancelReturn (k : ℕ) (h : s.cancellers k = .broke) : Step s (.cancelReturn k)
      { s with cancellers := Function.update s.cancellers k .outside }

theorem Reader.abort_eq_some {r r' : Reader} {handle : ℕ} :
    r.abort handle = some r' ↔ r = .reading handle false ∧ r' = .reading handle true := by
  unfold Reader.abort
  split
  · rename_i h
    simp only [Option.ite_none_right_eq_some, Option.some.injEq, Reader.reading.injEq, and_true]
    constructor
    · rintro ⟨rfl, rfl⟩
      exact ⟨rfl, rfl⟩
    · rintro ⟨rfl, rfl⟩
      exact ⟨rfl, rfl⟩
  · rename_i h
    simpa using fun hr => absurd hr (h handle)

theorem cancelSection_step {s s' : State} {k : ℕ} {answer : Bool}
    (h : cancelSection s k answer = some s') : Step s (.cancelSection k answer) s' := by
  unfold cancelSection at h
  split at h
  · rename_i hnone
    cases h
    exact .noRead k _ hnone
  · rename_i handle hsome
    cases h
    exact .retry k hsome
  · rename_i handle hsome
    obtain ⟨reader, habort, rfl⟩ := Option.map_eq_some_iff.mp h
    obtain ⟨hr, rfl⟩ := Reader.abort_eq_some.mp habort
    exact .abort k hsome hr

/-- Every executed label is one of the rules. -/
theorem step_cases {s s' : State} {a : Label} (h : step s a = some s') : Step s a s' := by
  cases a with
  | openThread =>
      simp only [step] at h
      split at h
      · rename_i hr
        cases h
        exact .openThread hr
      · cases h
  | firstSection =>
      simp only [step] at h
      split at h
      · rename_i handle hr
        split at h
        · rename_i hc
          cases h
          exact .refused hr hc
        · rename_i hc
          cases h
          exact .registered hr (by simpa using hc)
      · cases h
  | platformRead =>
      simp only [step] at h
      split at h
      · rename_i handle hr
        cases h
        exact .platformRead hr
      · cases h
  | platformReturn bytes =>
      simp only [step] at h
      split at h
      · rename_i handle aborted hr
        cases h
        exact .platformReturn bytes hr
      · cases h
  | lastSection =>
      simp only [step] at h
      split at h
      · rename_i handle bytes hr
        cases h
        exact .lastSection hr
      · cases h
  | closeHandle =>
      simp only [step] at h
      split at h
      · rename_i handle outcome hr
        cases h
        exact .closeHandle hr
      · cases h
  | cancelCall k =>
      simp only [step] at h
      split at h
      · cases h
        exact .cancelCall k
      · cases h
  | cancelSection k answer =>
      simp only [step] at h
      split at h
      · exact cancelSection_step h
      · exact cancelSection_step h
      · cases h
  | cancelReturn k =>
      simp only [step] at h
      split at h
      · rename_i hk
        cases h
        exact .cancelReturn k hk
      · cases h

end CohesionIpc.CancellableRead.Win32
