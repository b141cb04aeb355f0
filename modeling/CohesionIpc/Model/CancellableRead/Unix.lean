import CohesionIpc.Foundation.Transition
import Mathlib.Data.List.Basic

/-! `cancellable_read::impl` on Unix: one reader thread, cancelling threads that write to
the signal pipe, and a peer that feeds and may close the data descriptor. The pipe does not
fill up, and `select` fails only when it is interrupted. -/

namespace CohesionIpc.CancellableRead.Unix

/-- How a call of `read` ends. -/
inductive Outcome
  | bytesRead (bytes : List UInt8)
  | cancelledException
deriving DecidableEq, Repr

/-- Where the reader thread is in `read(file, buffer, size)`. -/
inductive Reader
  | outside
  /-- At the head of the loop, or blocked in `select`. -/
  | selecting (size : ℕ)
  /-- `select` has filled `rfds`: the bits of the signal pipe and of the data descriptor. -/
  | selected (size : ℕ) (signal data : Bool)
  /-- The signal bit was clear; the data bit is about to be tested. -/
  | unsignalled (size : ℕ) (data : Bool)
  /-- Inside `fread`, with what it has stored and whether it has met the end of file. -/
  | reading (size : ℕ) (got : List UInt8) (eof : Bool)
  | finished (outcome : Outcome)
deriving DecidableEq, Repr

inductive Label
  | readCall (size : ℕ)
  | selectInterrupted
  | select
  | testSignal
  | testData
  | readSome (n : ℕ)
  | readEof
  | freadReturn
  | readReturn
  | cancel
  | arrive (bytes : List UInt8)
  | close
deriving DecidableEq, Repr

/-- The descriptors and the reader. `cancels` counts the bytes in the signal pipe, which
nobody drains. The last two fields are observations on the read in progress: whether it
began after a `cancel` had returned, and whether a `cancel` was called during it. -/
structure State where
  available : List UInt8
  closed : Bool
  cancels : ℕ
  reader : Reader
  begunLate : Bool
  overtaken : Bool
deriving DecidableEq, Repr

def init : State where
  available := []
  closed := false
  cancels := 0
  reader := .outside
  begunLate := false
  overtaken := false

/-- `FD_ISSET` of the signal pipe when `select` returns. -/
def State.signalReady (s : State) : Bool := decide (0 < s.cancels)

/-- `FD_ISSET` of the data descriptor: bytes to read, or the end of file. -/
def State.dataReady (s : State) : Bool := !s.available.isEmpty || s.closed

def step (s : State) : Label → Option State
  | .readCall size =>
      match s.reader with
      | .outside => some { s with
          reader := .selecting size, begunLate := decide (0 < s.cancels), overtaken := false }
      | _ => none
  | .selectInterrupted =>
      -- `EINTR`: `continue`
      match s.reader with
      | .selecting _ => some s
      | _ => none
  | .select =>
      match s.reader with
      | .selecting size =>
          if s.signalReady || s.dataReady then
            some { s with reader := .selected size s.signalReady s.dataReady }
          else none
      | _ => none
  | .testSignal =>
      match s.reader with
      | .selected _ true _ => some { s with reader := .finished .cancelledException }
      | .selected size false data => some { s with reader := .unsignalled size data }
      | _ => none
  | .testData =>
      match s.reader with
      | .unsignalled size true => some { s with reader := .reading size [] false }
      | .unsignalled size false => some { s with reader := .selecting size }
      | _ => none
  | .readSome n =>
      match s.reader with
      | .reading size got false =>
          if 0 < n ∧ n ≤ s.available.length ∧ got.length + n ≤ size then
            some { s with
              available := s.available.drop n
              reader := .reading size (got ++ s.available.take n) false }
          else none
      | _ => none
  | .readEof =>
      match s.reader with
      | .reading size got false =>
          if s.available = [] ∧ s.closed ∧ got.length < size then
            some { s with reader := .reading size got true }
          else none
      | _ => none
  | .freadReturn =>
      match s.reader with
      | .reading size got eof =>
          if got.length = size ∨ eof then some { s with reader := .finished (.bytesRead got) }
          else none
      | _ => none
  | .readReturn =>
      match s.reader with
      | .finished _ => some { s with reader := .outside }
      | _ => none
  | .cancel => some { s with
      cancels := s.cancels + 1
      overtaken := s.overtaken || decide (s.reader ≠ .outside) }
  | .arrive bytes => if s.closed then none else some { s with available := s.available ++ bytes }
  | .close => some { s with closed := true }

/-- The steps of the reader thread itself. -/
def Label.ofReader : Label → Bool
  | .cancel | .arrive _ | .close => false
  | _ => true

/-- The reader is past a `select` that did not see the signal and will not look at the
signal pipe again before `read` returns. -/
def Reader.committed : Reader → Bool
  | .selected _ false true | .unsignalled _ true | .reading _ _ _ | .finished (.bytesRead _) => true
  | _ => false

/-! ## What each step can do -/

/-- The transitions, one rule per branch of the source. -/
inductive Step (s : State) : Label → State → Prop
  | readCall (size : ℕ) (h : s.reader = .outside) : Step s (.readCall size) { s with
      reader := .selecting size, begunLate := decide (0 < s.cancels), overtaken := false }
  | selectInterrupted {size : ℕ} (h : s.reader = .selecting size) : Step s .selectInterrupted s
  | select {size : ℕ} (h : s.reader = .selecting size)
      (hready : (s.signalReady || s.dataReady) = true) :
      Step s .select { s with reader := .selected size s.signalReady s.dataReady }
  | signalled {size : ℕ} {data : Bool} (h : s.reader = .selected size true data) :
      Step s .testSignal { s with reader := .finished .cancelledException }
  | unsignalled {size : ℕ} {data : Bool} (h : s.reader = .selected size false data) :
      Step s .testSignal { s with reader := .unsignalled size data }
  | dataReady {size : ℕ} (h : s.reader = .unsignalled size true) :
      Step s .testData { s with reader := .reading size [] false }
  | dataNotReady {size : ℕ} (h : s.reader = .unsignalled size false) :
      Step s .testData { s with reader := .selecting size }
  | readSome {size : ℕ} {got : List UInt8} (n : ℕ) (h : s.reader = .reading size got false)
      (hn : 0 < n ∧ n ≤ s.available.length ∧ got.length + n ≤ size) : Step s (.readSome n) { s with
        available := s.available.drop n
        reader := .reading size (got ++ s.available.take n) false }
  | readEof {size : ℕ} {got : List UInt8} (h : s.reader = .reading size got false)
      (heof : s.available = [] ∧ s.closed ∧ got.length < size) :
      Step s .readEof { s with reader := .reading size got true }
  | freadReturn {size : ℕ} {got : List UInt8} {eof : Bool} (h : s.reader = .reading size got eof)
      (hend : got.length = size ∨ eof) :
      Step s .freadReturn { s with reader := .finished (.bytesRead got) }
  | readReturn {outcome : Outcome} (h : s.reader = .finished outcome) :
      Step s .readReturn { s with reader := .outside }
  | cancel : Step s .cancel { s with
      cancels := s.cancels + 1
      overtaken := s.overtaken || decide (s.reader ≠ .outside) }
  | arrive (bytes : List UInt8) (h : s.closed = false) :
      Step s (.arrive bytes) { s with available := s.available ++ bytes }
  | close : Step s .close { s with closed := true }

/-- Every executed label is one of the rules. -/
theorem step_cases {s s' : State} {a : Label} (h : step s a = some s') : Step s a s' := by
  cases a with
  | readCall size =>
      simp only [step] at h
      split at h <;> cases h
      exact .readCall size ‹_›
  | selectInterrupted =>
      simp only [step] at h
      split at h <;> cases h
      exact .selectInterrupted ‹_›
  | select =>
      simp only [step] at h
      split at h
      · simp only [Option.ite_none_right_eq_some, Option.some.injEq] at h
        obtain ⟨hready, rfl⟩ := h
        exact .select ‹_› hready
      · cases h
  | testSignal =>
      simp only [step] at h
      split at h <;> cases h
      · exact .signalled ‹_›
      · exact .unsignalled ‹_›
  | testData =>
      simp only [step] at h
      split at h <;> cases h
      · exact .dataReady ‹_›
      · exact .dataNotReady ‹_›
  | readSome n =>
      simp only [step] at h
      split at h
      · simp only [Option.ite_none_right_eq_some, Option.some.injEq] at h
        obtain ⟨hn, rfl⟩ := h
        exact .readSome n ‹_› hn
      · cases h
  | readEof =>
      simp only [step] at h
      split at h
      · simp only [Option.ite_none_right_eq_some, Option.some.injEq] at h
        obtain ⟨heof, rfl⟩ := h
        exact .readEof ‹_› heof
      · cases h
  | freadReturn =>
      simp only [step] at h
      split at h
      · simp only [Option.ite_none_right_eq_some, Option.some.injEq] at h
        obtain ⟨hend, rfl⟩ := h
        exact .freadReturn ‹_› hend
      · cases h
  | readReturn =>
      simp only [step] at h
      split at h <;> cases h
      exact .readReturn ‹_›
  | cancel =>
      cases h
      exact .cancel
  | arrive bytes =>
      simp only [step, Option.ite_none_left_eq_some, Option.some.injEq, Bool.not_eq_true] at h
      obtain ⟨hopen, rfl⟩ := h
      exact .arrive bytes hopen
  | close =>
      cases h
      exact .close

end CohesionIpc.CancellableRead.Unix
