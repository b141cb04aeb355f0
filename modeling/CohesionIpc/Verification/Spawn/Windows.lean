import CohesionIpc.Model.SpawnWindows
import Mathlib.Tactic.IntervalCases

/-! Who holds the pipes of the servers that are spawned on Windows. The parent's ends are never
inherited, whatever is spawned at the same time. The ends of a server go to every process that is
started while they can be inherited. -/

namespace CohesionIpc.Spawn.Windows

open Transition

theorem getElem?_set_cases {α : Type*} {l : List α} {i j : ℕ} {a b : α}
    (h : (l.set i a)[j]? = some b) : j = i ∧ b = a ∨ j ≠ i ∧ l[j]? = some b := by
  by_cases hij : i = j
  · subst hij
    have hlt := (List.getElem?_eq_some_iff.mp h).1
    rw [List.length_set] at hlt
    rw [List.getElem?_set_self hlt, Option.some.injEq] at h
    exact .inl ⟨rfl, h.symm⟩
  · rw [List.getElem?_set_ne hij] at h
    exact .inr ⟨Ne.symm hij, h⟩

theorem getElem?_concat_cases {α : Type*} {l : List α} {j : ℕ} {a b : α}
    (h : (l ++ [a])[j]? = some b) : l[j]? = some b ∨ j = l.length ∧ b = a := by
  rw [List.getElem?_append] at h
  split at h
  · exact .inl h
  · rename_i hle
    rw [List.getElem?_singleton] at h
    split at h
    · rw [Option.some.injEq] at h
      exact .inr ⟨by omega, h.symm⟩
    · cases h

/-! ## Steps -/

/-- The steps, one rule per branch. -/
inductive Taken (s : Spawner) : SpawnEvent → Spawner → Prop
  | begins (spawnedPath : String) :
      Taken s (.begins spawnedPath) { s with attempts := s.attempts ++ [.init spawnedPath] }
  | succeeds {i : ℕ} {x : Attempt} {c : Call} {calls : List Call} (hx : s.attempts[i]? = some x)
      (hcalls : x.calls = c :: calls) : Taken s (.succeeds i) {
        handles := c.onHandles i s.handles
        attempts := s.attempts.set i
          (c.onAttempt s.handles.processes { x with calls := calls }) }
  | fails {i : ℕ} {how : Failure} {x : Attempt} {c : Call} {calls : List Call}
      (hx : s.attempts[i]? = some x) (hcalls : x.calls = c :: calls)
      (hthrows : (c.throws x.spawnedPath how).isSome) :
      Taken s (.fails i how) { s with attempts := s.attempts.set i (x.fail c how) }
  | destroys {i : ℕ} {x : Attempt} (hx : s.attempts[i]? = some x) (hconstructed : x.Constructed)
      (houtbound : x.outbound = true) : Taken s (.destroys i) {
        handles := s.handles.close (i, .stdinWrite)
        attempts := s.attempts.set i { x with outbound := false } }
  | finishes {i : ℕ} {x : Attempt} (hx : s.attempts[i]? = some x) (hconstructed : x.Constructed)
      (hreading : x.reading = true) (hgone : s.handles.Gone (i, .stdoutWrite))
      (hrunning : x.running = false) : Taken s (.finishes i) {
        handles := s.handles.close (i, .stdoutRead)
        attempts := s.attempts.set i { x with reading := false } }
  | childCloses {i k q : ℕ} {h : SpawnHandle} {x : Attempt} (hx : s.attempts[i]? = some x)
      (hchild : x.child = some q) :
      Taken s (.childCloses i k h) { s with handles := s.handles.closeGiven q (k, h) }
  | childExits {i q : ℕ} {x : Attempt} (hx : s.attempts[i]? = some x)
      (hrunning : x.running = true) (hchild : x.child = some q) : Taken s (.childExits i) {
        handles := s.handles.exit q
        attempts := s.attempts.set i { x with running := false } }

variable {s t : Spawner} {e : SpawnEvent} {i q : ℕ} {x : Attempt} {h : SpawnHandle}

theorem step_taken (ht : s.step e = some t) : Taken s e t := by
  cases e with
  | begins spawnedPath =>
      cases ht
      exact .begins spawnedPath
  | succeeds i =>
      simp only [Spawner.step] at ht
      split at ht
      · rename_i x hx
        split at ht
        · rename_i c calls hcalls
          cases ht
          exact .succeeds hx hcalls
        · cases ht
      · cases ht
  | fails i how =>
      simp only [Spawner.step] at ht
      split at ht
      · rename_i x hx
        split at ht
        · rename_i c calls hcalls
          rw [Option.ite_none_right_eq_some, Option.some.injEq] at ht
          obtain ⟨hthrows, rfl⟩ := ht
          exact .fails hx hcalls hthrows
        · cases ht
      · cases ht
  | destroys i =>
      simp only [Spawner.step] at ht
      split at ht
      · rename_i x hx
        rw [Option.ite_none_right_eq_some, Option.some.injEq] at ht
        obtain ⟨⟨hconstructed, houtbound⟩, rfl⟩ := ht
        exact .destroys hx hconstructed houtbound
      · cases ht
  | finishes i =>
      simp only [Spawner.step] at ht
      split at ht
      · rename_i x hx
        rw [Option.ite_none_right_eq_some, Option.some.injEq] at ht
        obtain ⟨⟨hconstructed, hreading, hgone, hrunning⟩, rfl⟩ := ht
        exact .finishes hx hconstructed hreading hgone (Bool.not_eq_true _ ▸ hrunning)
      · cases ht
  | childCloses i k h =>
      simp only [Spawner.step] at ht
      split at ht
      · rename_i x hx
        rw [Option.map_eq_some_iff] at ht
        obtain ⟨q, hchild, rfl⟩ := ht
        exact .childCloses hx hchild
      · cases ht
  | childExits i =>
      simp only [Spawner.step] at ht
      split at ht
      · rename_i x hx
        rw [Option.ite_none_right_eq_some, Option.map_eq_some_iff] at ht
        obtain ⟨hrunning, q, hchild, rfl⟩ := ht
        exact .childExits hx hrunning hchild
      · cases ht

/-! ## The calls of an attempt -/

/-- What is left to do: the end of `spawn`, or destructors after an exception. -/
def Attempt.Program (x : Attempt) : Prop :=
  (x.failure = none → x.calls <:+ spawnCalls) ∧
    (x.failure ≠ none → ∃ hs : List SpawnHandle, x.calls = hs.map .close)

theorem Attempt.Program.cases (hp : x.Program) :
    x.failure = none ∧ x.calls <:+ spawnCalls ∨
      x.failure ≠ none ∧ ∃ hs : List SpawnHandle, x.calls = hs.map .close := by
  by_cases hfailure : x.failure = none
  · exact .inl ⟨hfailure, hp.1 hfailure⟩
  · exact .inr ⟨hfailure, hp.2 hfailure⟩

theorem Attempt.program_init (spawnedPath : String) : (Attempt.init spawnedPath).Program :=
  ⟨fun _ => List.suffix_rfl, fun hne => absurd rfl hne⟩

theorem program_succeeds {c : Call} {calls : List Call} {processes : ℕ} (hp : x.Program)
    (hcalls : x.calls = c :: calls) :
    (c.onAttempt processes { x with calls := calls }).Program := by
  have hrest : ({ x with calls := calls } : Attempt).Program := by
    refine ⟨fun hfailure => ?_, fun hfailure => ?_⟩
    · have hsuffix := hp.1 hfailure
      rw [hcalls] at hsuffix
      exact (List.suffix_cons c calls).trans hsuffix
    · obtain ⟨hs, heq⟩ := hp.2 hfailure
      rw [hcalls] at heq
      cases hs with
      | nil => cases heq
      | cons h hs =>
          rw [List.map_cons, List.cons.injEq] at heq
          exact ⟨hs, heq.2⟩
  cases c <;> exact hrest

theorem Attempt.program_fail (c : Call) (how : Failure) : (x.fail c how).Program :=
  ⟨fun hnone => (by cases hnone), fun _ => ⟨_, rfl⟩⟩

/-- Only the ends of the server are made inheritable. -/
theorem Attempt.Program.setInherit (hp : x.Program) (hmem : .setInherit h ∈ x.calls) :
    h = .stdinRead ∨ h = .stdoutWrite := by
  rcases hp.cases with ⟨-, hsuffix⟩ | ⟨-, hs, heq⟩
  · have hmem' := hsuffix.subset hmem
    simpa [spawnCalls] using hmem'
  · rw [heq, List.mem_map] at hmem
    obtain ⟨_, -, hclose⟩ := hmem
    cases hclose

theorem createProcess_once {calls : List Call} (hp : x.Program)
    (hcalls : x.calls = .createProcess :: calls) : .createProcess ∉ calls := by
  rcases hp.cases with ⟨-, hsuffix⟩ | ⟨-, hs, heq⟩
  · rw [hcalls] at hsuffix
    simp only [spawnCalls, List.suffix_cons_iff, List.suffix_nil, List.cons.injEq, reduceCtorEq,
      false_and, true_and, false_or, or_false] at hsuffix
    rw [hsuffix]
    simp
  · rw [hcalls] at heq
    cases hs with
    | nil => cases heq
    | cons h hs => cases heq

/-! ## The ends of the parent -/

section Handles

variable {handles : HandleTables (ℕ × SpawnHandle)} {k : ℕ} {c : Call}

/-- A call changes the handles of its own attempt. -/
theorem own_onHandles_of_ne (hk : k ≠ i) : (c.onHandles i handles).own (k, h) =
    handles.own (k, h) := by
  have hne : ∀ h', (k, h) ≠ (i, h') := fun h' heq => hk (Prod.mk.inj heq).1
  cases c with
  | createPipe r w =>
      rw [Call.onHandles, HandleTables.own_create_of_ne (hne w),
        HandleTables.own_create_of_ne (hne r)]
  | setInherit h' => exact HandleTables.own_setInherit_of_ne (hne h')
  | close h' => exact HandleTables.own_close_of_ne (hne h')
  | fromHandle | commandLine | createProcess => rfl

theorem private_onHandles (hp : handles.Private (k, h)) (hc : c ≠ .setInherit h) :
    (c.onHandles i handles).Private (k, h) := by
  cases c with
  | createPipe r w => exact hp.create.create
  | setInherit h' =>
      refine hp.setInherit fun heq => hc ?_
      rw [(Prod.mk.inj heq).2]
  | createProcess => exact hp.start
  | close h' => exact hp.close
  | fromHandle | commandLine => exact hp

end Handles

/-- The ends that the parent keeps are its own, and that of `_outbound` is closed with it. -/
structure Sound (s : Spawner) : Prop where
  program : ∀ (i : ℕ) (x : Attempt), s.attempts[i]? = some x → x.Program
  keeps : ∀ (i : ℕ) (h : SpawnHandle), h = .stdinWrite ∨ h = .stdoutRead → s.handles.Private (i, h)
  outbound : ∀ (i : ℕ) (x : Attempt), s.attempts[i]? = some x → x.outbound = false →
    x.calls = [] ∧ s.handles.own (i, .stdinWrite) = none

theorem sound_init : Sound .init where
  program _ _ hx := by cases hx
  keeps _ _ _ := ⟨fun h => (by cases h), fun _ => rfl⟩
  outbound _ _ hx := by cases hx

theorem sound_step (hs : Sound s) (h : Taken s e t) : Sound t := by
  cases h with
  | begins spawnedPath =>
      refine ⟨fun j y hy => ?_, hs.keeps, fun j y hy houtbound => ?_⟩
      · rcases getElem?_concat_cases hy with hy | ⟨-, rfl⟩
        · exact hs.program j y hy
        · exact Attempt.program_init spawnedPath
      · rcases getElem?_concat_cases hy with hy | ⟨-, rfl⟩
        · exact hs.outbound j y hy houtbound
        · cases houtbound
  | @succeeds i x c calls hx hcalls =>
      have hprogram := hs.program i x hx
      refine ⟨fun j y hy => ?_, fun j h' hh => ?_, fun j y hy houtbound => ?_⟩
      · rcases getElem?_set_cases hy with ⟨-, rfl⟩ | ⟨-, hy⟩
        · exact program_succeeds hprogram hcalls
        · exact hs.program j y hy
      · refine private_onHandles (hs.keeps j h' hh) ?_
        rintro rfl
        have hend := hprogram.setInherit (by rw [hcalls]; exact List.mem_cons_self)
        rcases hh with rfl | rfl <;> simp at hend
      · rcases getElem?_set_cases hy with ⟨-, rfl⟩ | ⟨hne, hy⟩
        · have houtbound' : x.outbound = false := by cases c <;> exact houtbound
          rw [(hs.outbound i x hx houtbound').1] at hcalls
          cases hcalls
        · rw [own_onHandles_of_ne hne]
          exact hs.outbound j y hy houtbound
  | @fails i how x c calls hx hcalls =>
      refine ⟨fun j y hy => ?_, hs.keeps, fun j y hy houtbound => ?_⟩
      · rcases getElem?_set_cases hy with ⟨-, rfl⟩ | ⟨-, hy⟩
        · exact Attempt.program_fail c how
        · exact hs.program j y hy
      · rcases getElem?_set_cases hy with ⟨-, rfl⟩ | ⟨-, hy⟩
        · rw [(hs.outbound i x hx houtbound).1] at hcalls
          cases hcalls
        · exact hs.outbound j y hy houtbound
  | @destroys i x hx hconstructed =>
      refine ⟨fun j y hy => ?_, fun j h' hh => (hs.keeps j h' hh).close, fun j y hy houtbound => ?_⟩
      · rcases getElem?_set_cases hy with ⟨-, rfl⟩ | ⟨-, hy⟩
        · exact hs.program i x hx
        · exact hs.program j y hy
      · rcases getElem?_set_cases hy with ⟨rfl, rfl⟩ | ⟨hne, hy⟩
        · exact ⟨hconstructed.1, HandleTables.own_close_self⟩
        · rw [HandleTables.own_close_of_ne (by simp [hne])]
          exact hs.outbound j y hy houtbound
  | @finishes i x hx =>
      refine ⟨fun j y hy => ?_, fun j h' hh => (hs.keeps j h' hh).close, fun j y hy houtbound => ?_⟩
      · rcases getElem?_set_cases hy with ⟨-, rfl⟩ | ⟨-, hy⟩
        · exact hs.program i x hx
        · exact hs.program j y hy
      · rw [HandleTables.own_close_of_ne (by simp)]
        rcases getElem?_set_cases hy with ⟨rfl, rfl⟩ | ⟨-, hy⟩
        · exact hs.outbound j x hx houtbound
        · exact hs.outbound j y hy houtbound
  | childCloses =>
      exact ⟨hs.program, fun j h' hh => (hs.keeps j h' hh).closeGiven, hs.outbound⟩
  | @childExits i q x hx =>
      refine ⟨fun j y hy => ?_, fun j h' hh => (hs.keeps j h' hh).exit, fun j y hy houtbound => ?_⟩
      · rcases getElem?_set_cases hy with ⟨-, rfl⟩ | ⟨-, hy⟩
        · exact hs.program i x hx
        · exact hs.program j y hy
      · rcases getElem?_set_cases hy with ⟨rfl, rfl⟩ | ⟨-, hy⟩
        · exact hs.outbound j x hx houtbound
        · exact hs.outbound j y hy houtbound

theorem sound_run {events : List SpawnEvent} (hrun : run Spawner.step .init events = some s) :
    Sound s :=
  run_invariant_of_step Sound (fun _ _ _ hs ht => sound_step hs (step_taken ht)) sound_init hrun

/-- Whatever is spawned and destroyed at the same time, no process but the parent ever has the end
that a server's input comes from, and when `_outbound` has been reset nobody has it. -/
theorem input_ends {events : List SpawnEvent} (hrun : run Spawner.step .init events = some s)
    (hx : s.attempts[i]? = some x) :
    (∀ q, s.handles.given q (i, .stdinWrite) = false) ∧
      (x.outbound = false → s.handles.Gone (i, .stdinWrite)) := by
  have hs := sound_run hrun
  have hgiven := (hs.keeps i .stdinWrite (.inl rfl)).given
  exact ⟨hgiven, fun houtbound => ⟨(hs.outbound i x hx houtbound).2, fun q _ => hgiven q⟩⟩

/-! ## The ends of the servers -/

/-- Each server is the child of one attempt, and runs from `CreateProcess` to its exit. -/
structure Children (s : Spawner) : Prop where
  lt : ∀ (i : ℕ) (x : Attempt) (q : ℕ), s.attempts[i]? = some x → x.child = some q →
    q < s.handles.processes
  created : ∀ (i : ℕ) (x : Attempt), s.attempts[i]? = some x → .createProcess ∈ x.calls →
    x.child = none
  distinct : ∀ (i j : ℕ) (x y : Attempt) (q : ℕ), s.attempts[i]? = some x →
    s.attempts[j]? = some y → x.child = some q → y.child = some q → i = j
  output : ∀ (i : ℕ) (x : Attempt), s.attempts[i]? = some x → x.failure = none →
    s.handles.own (i, .stdoutWrite) ≠ none → .close .stdoutWrite ∈ x.calls

theorem children_init : Children .init where
  lt _ _ _ hx := by cases hx
  created _ _ hx := by cases hx
  distinct _ _ _ _ _ hx := by cases hx
  output _ _ hx := by cases hx

/-- The child of an attempt stays the same. -/
theorem Children.set (hs : Children s) (hx : s.attempts[i]? = some x) {y : Attempt}
    {handles : HandleTables (ℕ × SpawnHandle)} (hchild : y.child = x.child)
    (hcreated : .createProcess ∈ y.calls → .createProcess ∈ x.calls)
    (hprocesses : handles.processes = s.handles.processes)
    (hown : ∀ j, j ≠ i → handles.own (j, .stdoutWrite) = s.handles.own (j, .stdoutWrite))
    (houtput : y.failure = none → handles.own (i, .stdoutWrite) ≠ none →
      .close .stdoutWrite ∈ y.calls) :
    Children { handles := handles, attempts := s.attempts.set i y } := by
  have hsame : ∀ (j : ℕ) (z : Attempt), (s.attempts.set i y)[j]? = some z →
      ∃ z', s.attempts[j]? = some z' ∧ z.child = z'.child := by
    intro j z hz
    rcases getElem?_set_cases hz with ⟨rfl, rfl⟩ | ⟨-, hz⟩
    · exact ⟨x, hx, hchild⟩
    · exact ⟨z, hz, rfl⟩
  refine ⟨fun j z q hz hq => ?_, fun j z hz hmem => ?_, fun j k z w q hz hw hzq hwq => ?_,
    fun j z hz hnone hopen => ?_⟩
  · obtain ⟨z', hz', heq⟩ := hsame j z hz
    rw [hprocesses]
    exact hs.lt j z' q hz' (heq ▸ hq)
  · rcases getElem?_set_cases hz with ⟨rfl, rfl⟩ | ⟨-, hz⟩
    · rw [hchild]
      exact hs.created j x hx (hcreated hmem)
    · exact hs.created j z hz hmem
  · obtain ⟨z', hz', hzeq⟩ := hsame j z hz
    obtain ⟨w', hw', hweq⟩ := hsame k w hw
    exact hs.distinct j k z' w' q hz' hw' (hzeq ▸ hzq) (hweq ▸ hwq)
  · rcases getElem?_set_cases hz with ⟨rfl, rfl⟩ | ⟨hne, hz⟩
    · exact houtput hnone hopen
    · rw [hown j hne] at hopen
      exact hs.output j z hz hnone hopen

/-- The output is closed by the last call but one. -/
theorem close_output_cases {c : Call} {calls : List Call} (hsuffix : c :: calls <:+ spawnCalls) :
    .close .stdoutWrite ∈ calls ∨ c = .close .stdoutWrite ∨ c = .close .stdinRead := by
  simp only [spawnCalls, List.suffix_cons_iff, List.suffix_nil, List.cons.injEq,
    List.cons_ne_nil, or_false] at hsuffix
  rcases hsuffix with ⟨rfl, rfl⟩ | ⟨rfl, rfl⟩ | ⟨rfl, rfl⟩ | ⟨rfl, rfl⟩ | ⟨rfl, rfl⟩ | ⟨rfl, rfl⟩ |
    ⟨rfl, rfl⟩ | ⟨rfl, rfl⟩ | ⟨rfl, rfl⟩ | ⟨rfl, rfl⟩ | ⟨rfl, rfl⟩ | ⟨rfl, rfl⟩ <;> simp

/-- After a call of `spawn`, the end that the server writes to is open only as long as its
destructor is to come. -/
theorem output_onHandles {handles : HandleTables (ℕ × SpawnHandle)} {c : Call} {calls : List Call}
    (hsuffix : c :: calls <:+ spawnCalls)
    (hold : handles.own (i, .stdoutWrite) ≠ none → .close .stdoutWrite ∈ c :: calls)
    (hopen : (c.onHandles i handles).own (i, .stdoutWrite) ≠ none) :
    .close .stdoutWrite ∈ calls := by
  rcases close_output_cases hsuffix with hmem | rfl | rfl
  · exact hmem
  · exact absurd HandleTables.own_close_self hopen
  · rw [Call.onHandles, HandleTables.own_close_of_ne (by simp)] at hopen
    simpa using hold hopen

theorem processes_onHandles {handles : HandleTables (ℕ × SpawnHandle)} {c : Call}
    (hc : c ≠ .createProcess) : (c.onHandles i handles).processes = handles.processes := by
  cases c with
  | createProcess => exact absurd rfl hc
  | _ => rfl

/-- A new process gets a number of its own. -/
theorem Children.createProcess (hs : Children s) {calls : List Call}
    (hx : s.attempts[i]? = some x) (hcreated : .createProcess ∉ calls)
    (houtput : x.failure = none → s.handles.own (i, .stdoutWrite) ≠ none →
      .close .stdoutWrite ∈ calls) :
    Children {
      handles := s.handles.start
      attempts := s.attempts.set i { x with
        calls := calls, child := some s.handles.processes, running := true } } := by
  have hlt : ∀ (j : ℕ) (z : Attempt) (q : ℕ), s.attempts[j]? = some z → z.child = some q →
      q ≠ s.handles.processes := fun j z q hz hq => Nat.ne_of_lt (hs.lt j z q hz hq)
  refine ⟨fun j z q hz hq => ?_, fun j z hz hmem => ?_, fun j k z w q hz hw hzq hwq => ?_,
    fun j z hz hnone hopen => ?_⟩
  · rcases getElem?_set_cases hz with ⟨-, rfl⟩ | ⟨-, hz⟩
    · cases hq
      exact Nat.lt_succ_self _
    · exact Nat.lt_succ_of_lt (hs.lt j z q hz hq)
  · rcases getElem?_set_cases hz with ⟨-, rfl⟩ | ⟨-, hz⟩
    · exact absurd hmem hcreated
    · exact hs.created j z hz hmem
  · rcases getElem?_set_cases hz with ⟨rfl, rfl⟩ | ⟨-, hz'⟩
    · rcases getElem?_set_cases hw with ⟨rfl, -⟩ | ⟨-, hw⟩
      · rfl
      · cases hzq
        exact absurd rfl (hlt k w _ hw hwq)
    · rcases getElem?_set_cases hw with ⟨rfl, rfl⟩ | ⟨-, hw⟩
      · cases hwq
        exact absurd rfl (hlt j z _ hz' hzq)
      · exact hs.distinct j k z w q hz' hw hzq hwq
  · rcases getElem?_set_cases hz with ⟨rfl, rfl⟩ | ⟨-, hz⟩
    · exact houtput hnone hopen
    · exact hs.output j z hz hnone hopen

theorem children_step (hs : Children s) (hsound : Sound s) (h : Taken s e t) : Children t := by
  cases h with
  | begins spawnedPath =>
      refine ⟨fun j z q hz hq => ?_, fun j z hz hmem => ?_, fun j k z w q hz hw hzq hwq => ?_,
        fun j z hz hnone hopen => ?_⟩
      · rcases getElem?_concat_cases hz with hz | ⟨-, rfl⟩
        · exact hs.lt j z q hz hq
        · cases hq
      · rcases getElem?_concat_cases hz with hz | ⟨-, rfl⟩
        · exact hs.created j z hz hmem
        · rfl
      · rcases getElem?_concat_cases hz with hz | ⟨-, rfl⟩
        · rcases getElem?_concat_cases hw with hw | ⟨-, rfl⟩
          · exact hs.distinct j k z w q hz hw hzq hwq
          · cases hwq
        · cases hzq
      · rcases getElem?_concat_cases hz with hz | ⟨-, rfl⟩
        · exact hs.output j z hz hnone hopen
        · simp [Attempt.init, spawnCalls]
  | @succeeds i x c calls hx hcalls =>
      have houtput : x.failure = none →
          (c.onHandles i s.handles).own (i, .stdoutWrite) ≠ none →
            .close .stdoutWrite ∈ calls := by
        intro hnone
        refine output_onHandles (hcalls ▸ (hsound.program i x hx).1 hnone) fun hopen => ?_
        rw [← hcalls]
        exact hs.output i x hx hnone hopen
      by_cases hc : c = .createProcess
      · subst hc
        have hcreated : .createProcess ∉ calls :=
          createProcess_once (hsound.program i x hx) hcalls
        exact Children.createProcess (x := x) hs hx hcreated houtput
      · refine hs.set hx ?_ ?_ (processes_onHandles hc) (fun j hj => own_onHandles_of_ne hj) ?_
        · cases c <;> first | rfl | exact absurd rfl hc
        · rw [hcalls]
          cases c <;> exact List.mem_cons_of_mem _
        · cases c <;> exact houtput
  | @fails i how x c calls hx hcalls =>
      refine hs.set hx rfl ?_ rfl (fun _ _ => rfl) fun hnone => by cases hnone
      intro hmem
      obtain ⟨_, -, hclose⟩ := List.mem_map.mp hmem
      cases hclose
  | @destroys i x hx hconstructed =>
      refine hs.set hx rfl id rfl (fun j hj => HandleTables.own_close_of_ne (by simp)) ?_
      rw [HandleTables.own_close_of_ne (by simp)]
      exact hs.output i x hx
  | @finishes i x hx =>
      refine hs.set hx rfl id rfl (fun j hj => HandleTables.own_close_of_ne (by simp)) ?_
      rw [HandleTables.own_close_of_ne (by simp)]
      exact hs.output i x hx
  | childCloses => exact ⟨hs.lt, hs.created, hs.distinct, hs.output⟩
  | @childExits i q x hx => exact hs.set hx rfl id rfl (fun _ _ => rfl) (hs.output i x hx)

/-! ## Isolation -/

/-- The servers' ends are with the servers alone. -/
def Confined (s : Spawner) : Prop :=
  ∀ (q i : ℕ) (h : SpawnHandle), s.handles.given q (i, h) = true →
    ∃ x, s.attempts[i]? = some x ∧ x.child = some q ∧ x.running = true

/-- And a thread whose server has exited can come to its end. -/
structure Isolates (s : Spawner) : Prop where
  confined : Confined s
  finish : ∀ (i : ℕ) (x : Attempt), s.attempts[i]? = some x → x.Constructed → x.reading = true →
    x.running = false → (s.step (.finishes i)).isSome

/-- A process is started only while no other attempt has handles that can be inherited. -/
def Alone (s : Spawner) : SpawnEvent → Prop
  | .succeeds i => ∀ x, s.attempts[i]? = some x → x.calls.head? = some .createProcess →
      ∀ j, j ≠ i → ∀ h, s.handles.own (j, h) ≠ some true
  | _ => True

structure Inv (s : Spawner) : Prop where
  sound : Sound s
  children : Children s
  confined : Confined s

theorem inv_init : Inv .init :=
  ⟨sound_init, children_init, fun _ _ _ hgiven => by cases hgiven⟩

/-- The server of an attempt goes on running. -/
theorem Confined.set (hs : Confined s) (hx : s.attempts[i]? = some x) {y : Attempt}
    (hchild : y.child = x.child) (hrunning : y.running = x.running)
    {handles : HandleTables (ℕ × SpawnHandle)}
    (hgiven : ∀ q j h, handles.given q (j, h) = true → s.handles.given q (j, h) = true) :
    Confined { handles := handles, attempts := s.attempts.set i y } := by
  intro q j h hq
  obtain ⟨z, hz, hzchild, hzrunning⟩ := hs q j h (hgiven q j h hq)
  by_cases hj : i = j
  · subst hj
    cases hx.symm.trans hz
    refine ⟨y, List.getElem?_set_self (List.getElem?_eq_some_iff.mp hx).1, ?_, ?_⟩
    · rw [hchild, hzchild]
    · rw [hrunning, hzrunning]
  · exact ⟨z, (List.getElem?_set_ne hj).trans hz, hzchild, hzrunning⟩

theorem confined_step (hI : Inv s) (halone : Alone s e) (h : Taken s e t) : Confined t := by
  cases h with
  | begins =>
      intro q j h hq
      obtain ⟨z, hz, hchild⟩ := hI.confined q j h hq
      refine ⟨z, ?_, hchild⟩
      exact (List.getElem?_append_left (List.getElem?_eq_some_iff.mp hz).1).trans hz
  | @succeeds i x c calls hx hcalls =>
      by_cases hc : c = .createProcess
      · subst hc
        have hnone := hI.children.created i x hx (by rw [hcalls]; exact List.mem_cons_self)
        intro q j h hq
        by_cases hnew : q = s.handles.processes
        · subst hnew
          have hown : s.handles.own (j, h) = some true := by
            rw [Call.onHandles, HandleTables.given_start_self] at hq
            exact of_decide_eq_true hq
          have hj : j = i := by
            by_contra hne
            exact halone x hx (by rw [hcalls]; rfl) j hne h hown
          subst hj
          exact ⟨_, List.getElem?_set_self (List.getElem?_eq_some_iff.mp hx).1, rfl, rfl⟩
        · rw [Call.onHandles, HandleTables.given_start_of_ne hnew] at hq
          obtain ⟨z, hz, hchild, hrunning⟩ := hI.confined q j h hq
          have hj : i ≠ j := by
            rintro rfl
            cases hx.symm.trans hz
            cases hnone.symm.trans hchild
          exact ⟨z, (List.getElem?_set_ne hj).trans hz, hchild, hrunning⟩
      · refine hI.confined.set hx ?_ ?_ ?_
        · cases c <;> first | rfl | exact absurd rfl hc
        · cases c <;> first | rfl | exact absurd rfl hc
        · cases c <;> first | exact fun _ _ _ => id | exact absurd rfl hc
  | fails hx | destroys hx | finishes hx =>
      refine hI.confined.set hx ?_ ?_ fun _ _ _ => id
      · rfl
      · rfl
  | childCloses =>
      exact fun q' j h' hq => hI.confined q' j h' (HandleTables.given_of_closeGiven hq)
  | @childExits i q x hx hrunning hchild =>
      intro q' j h' hq
      obtain ⟨hne, hq⟩ := HandleTables.given_of_exit hq
      obtain ⟨z, hz, hzchild, hzrunning⟩ := hI.confined q' j h' hq
      have hj : i ≠ j := by
        rintro rfl
        cases hx.symm.trans hz
        rw [hchild, Option.some.injEq] at hzchild
        exact hne hzchild.symm
      exact ⟨z, (List.getElem?_set_ne hj).trans hz, hzchild, hzrunning⟩

theorem Inv.step (hI : Inv s) (halone : Alone s e) (h : Taken s e t) : Inv t :=
  ⟨sound_step hI.sound h, children_step hI.children hI.sound h, confined_step hI halone h⟩

theorem Inv.isolates (hI : Inv s) : Isolates s := by
  refine ⟨hI.confined, fun i x hx hconstructed hreading hrunning => ?_⟩
  have hown : s.handles.own (i, .stdoutWrite) = none := by
    by_contra hopen
    have hmem := hI.children.output i x hx hconstructed.2 hopen
    rw [hconstructed.1] at hmem
    cases hmem
  have hgone : s.handles.Gone (i, .stdoutWrite) := by
    refine ⟨hown, fun q _ => ?_⟩
    by_contra hgiven
    rw [Bool.not_eq_false] at hgiven
    obtain ⟨y, hy, -, hyrunning⟩ := hI.confined q i .stdoutWrite hgiven
    cases hx.symm.trans hy
    cases hrunning.symm.trans hyrunning
  simp [Spawner.step, hx, hconstructed, hreading, hgone, hrunning]

/-- Where a process is started while another attempt has an end that can be inherited, it gets
it. -/
theorem Inv.alone (hI : Inv s) (h : Taken s e t) (hT : Isolates t) : Alone s e := by
  cases h with
  | @succeeds i x c calls hx hcalls =>
      intro y hy hhead j hj h hown
      cases hx.symm.trans hy
      rw [hcalls, List.head?_cons, Option.some.injEq] at hhead
      subst hhead
      have hgiven : s.handles.start.given s.handles.processes (j, h) = true := by
        rw [HandleTables.given_start_self]
        exact decide_eq_true hown
      obtain ⟨z, hz, hchild, -⟩ := hT.confined _ j h hgiven
      have hz' : s.attempts[j]? = some z := (List.getElem?_set_ne (Ne.symm hj)).symm.trans hz
      exact absurd (hI.children.lt j z _ hz' hchild) (Nat.lt_irrefl _)
  | begins | fails | destroys | finishes | childCloses | childExits => trivial

/-- Of all runs exactly those keep the servers' ends with the servers, in every state, in which no
process is started while another attempt has made its server's ends inheritable and not yet closed
them. -/
theorem servers_isolated_iff (events : List SpawnEvent)
    (hrun : (run Spawner.step .init events).isSome) :
    Through Spawner.step (fun _ _ t => Isolates t) .init events ↔
      Along Spawner.step Alone .init events :=
  through_iff_along_of_step Inv
    (fun _ _ _ hI halone hs =>
      ⟨hI.step halone (step_taken hs), (hI.step halone (step_taken hs)).isolates⟩)
    (fun _ _ _ hI hs hT => hI.alone (step_taken hs) hT) inv_init hrun

/-- Two servers are started one after the other, and the first is destroyed while the second
runs. -/
def successive : List SpawnEvent :=
  [.begins "a"] ++ List.replicate 12 (.succeeds 0) ++ [.begins "b"] ++
    List.replicate 12 (.succeeds 1) ++ [.destroys 0, .childExits 0, .finishes 0]

theorem input_ends_successive :
    ∃ s x, run Spawner.step .init successive = some s ∧ s.attempts[0]? = some x ∧
      x.outbound = false ∧ s.handles.Gone (0, .stdinWrite) := by
  obtain ⟨s, x, hrun, hx, houtbound⟩ : ∃ s x, run Spawner.step .init successive = some s ∧
      s.attempts[0]? = some x ∧ x.outbound = false := ⟨_, _, rfl, rfl, rfl⟩
  exact ⟨s, x, hrun, hx, houtbound, (input_ends hrun hx).2 houtbound⟩

theorem servers_isolated_iff_successive :
    Through Spawner.step (fun _ _ t => Isolates t) .init successive ↔
      Along Spawner.step Alone .init successive :=
  servers_isolated_iff successive rfl

/-! ## Failures -/

/-- What stays open when a call of `spawn` has failed. `from_handle` does not close a handle that
it cannot make a descriptor of, and the other end of the pipe may have no stream yet. -/
def leaked : Call → Failure → List SpawnHandle
  | .fromHandle .stdinRead, .call => [.stdinRead, .stdinWrite]
  | .fromHandle .stdinRead, .fdopen | .fromHandle .stdinWrite, .call => [.stdinWrite]
  | .fromHandle .stdoutRead, .call => [.stdoutRead, .stdoutWrite]
  | .fromHandle .stdoutRead, .fdopen | .fromHandle .stdoutWrite, .call => [.stdoutWrite]
  | _, _ => []

/-- The handles that are open before the rest of `spawn`. -/
def isOpen (calls : List Call) : SpawnHandle → Bool
  | .stdinRead =>
      decide (.createPipe .stdinRead .stdinWrite ∉ calls ∧ .close .stdinRead ∈ calls)
  | .stdinWrite => decide (.createPipe .stdinRead .stdinWrite ∉ calls)
  | .stdoutRead => decide (.createPipe .stdoutRead .stdoutWrite ∉ calls)
  | .stdoutWrite =>
      decide (.createPipe .stdoutRead .stdoutWrite ∉ calls ∧ .close .stdoutWrite ∈ calls)

/-- Whether a handle is open after a call. -/
def Call.opens (h : SpawnHandle) (was : Bool) : Call → Bool
  | .createPipe r w => decide (h = r ∨ h = w) || was
  | .close h' => decide (h ≠ h') && was
  | .fromHandle _ | .setInherit _ | .commandLine | .createProcess => was

theorem isSome_own_onHandles {handles : HandleTables (ℕ × SpawnHandle)} {c : Call} :
    ((c.onHandles i handles).own (i, h)).isSome = c.opens h (handles.own (i, h)).isSome := by
  have hne : ∀ {h'}, h ≠ h' → (i, h) ≠ (i, h') := fun hh heq => hh (Prod.mk.inj heq).2
  cases c with
  | createPipe r w =>
      by_cases hw : h = w
      · subst hw
        simp [Call.onHandles, Call.opens]
      · rw [Call.onHandles, HandleTables.own_create_of_ne (hne hw)]
        by_cases hr : h = r
        · subst hr
          simp [Call.opens]
        · rw [HandleTables.own_create_of_ne (hne hr)]
          simp [Call.opens, hr, hw]
  | setInherit h' =>
      by_cases hh : h = h'
      · subst hh
        simp [Call.onHandles, Call.opens]
      · rw [Call.onHandles, HandleTables.own_setInherit_of_ne (hne hh)]
        rfl
  | close h' =>
      by_cases hh : h = h'
      · subst hh
        simp [Call.onHandles, Call.opens]
      · rw [Call.onHandles, HandleTables.own_close_of_ne (hne hh)]
        simp [Call.opens, hh]
  | fromHandle | commandLine | createProcess => rfl

/-- The rest of `spawn` from each of its calls on. -/
theorem suffix_cases {c : Call} {calls : List Call} (hsuffix : c :: calls <:+ spawnCalls) :
    ∃ n < 12, c :: calls = spawnCalls.drop n := by
  obtain ⟨before, heq⟩ := hsuffix
  have hlength := congrArg List.length heq
  rw [List.length_append, List.length_cons] at hlength
  refine ⟨before.length, ?_, ?_⟩
  · change before.length + (calls.length + 1) = 12 at hlength
    omega
  · rw [← heq, List.drop_left]

theorem isOpen_cons {c : Call} {calls : List Call} (hsuffix : c :: calls <:+ spawnCalls) :
    isOpen calls h = c.opens h (isOpen (c :: calls) h) := by
  obtain ⟨n, hn, heq⟩ := suffix_cases hsuffix
  interval_cases n <;> cases heq <;> cases h <;> rfl

/-- A stream is opened once. -/
theorem fromHandle_cons {calls : List Call} (hsuffix : .fromHandle h :: calls <:+ spawnCalls) :
    .fromHandle h ∉ calls := by
  obtain ⟨n, hn, heq⟩ := suffix_cases hsuffix
  interval_cases n <;> cases heq <;> decide

/-- The descriptor that `from_handle` closes when `_fdopen` fails. -/
def Call.closes : Call → Failure → List SpawnHandle
  | .fromHandle h, .fdopen => [h]
  | _, _ => []

/-- What is open when a call fails is closed, or has a stream, or stays open. -/
theorem isOpen_fails {spawnedPath : String} {c : Call} {calls : List Call} {how : Failure}
    (hsuffix : c :: calls <:+ spawnCalls) (hthrows : (c.throws spawnedPath how).isSome) :
    isOpen (c :: calls) h = true ↔
      (h ∈ c.closes how ∨ .fromHandle h ∉ c :: calls) ∨ h ∈ leaked c how := by
  obtain ⟨n, hn, heq⟩ := suffix_cases hsuffix
  interval_cases n <;> cases heq <;> cases how <;> cases h <;>
    first | decide | simp [Call.throws] at hthrows

/-- `CreateProcess` is the last call that may fail. -/
theorem createProcess_mem {spawnedPath : String} {c : Call} {calls : List Call} {how : Failure}
    (hsuffix : c :: calls <:+ spawnCalls) (hthrows : (c.throws spawnedPath how).isSome) :
    .createProcess ∈ c :: calls := by
  obtain ⟨n, hn, heq⟩ := suffix_cases hsuffix
  interval_cases n <;> cases heq <;> first | decide | cases hthrows

/-- None of it more than once. -/
theorem leaked_fails {spawnedPath : String} {c : Call} {calls : List Call} {how : Failure}
    (hsuffix : c :: calls <:+ spawnCalls) (hthrows : (c.throws spawnedPath how).isSome) :
    (∀ h ∈ leaked c how, .fromHandle h ∈ c :: calls ∧ h ∉ c.closes how) ∧
      ∀ h ∈ c.closes how, .fromHandle h ∈ c :: calls := by
  obtain ⟨n, hn, heq⟩ := suffix_cases hsuffix
  interval_cases n <;> cases heq <;> cases how <;> decide

/-- The open handles of an attempt, which are `own`. -/
structure Attempt.Holds (x : Attempt) (own : SpawnHandle → Bool) : Prop where
  session : x.calls ≠ [] → x.outbound = true ∧ x.reading = true
  going : x.failure = none → x.streams.Nodup ∧
    (∀ h, h ∈ x.streams ↔ .fromHandle h ∉ x.calls) ∧
    ∀ h, own h = (isOpen x.calls h && (decide (h ≠ .stdinWrite) || x.outbound) &&
      (decide (h ≠ .stdoutRead) || x.reading))
  failed : ∀ c how, x.failure = some (c, how) → x.child = none ∧
    ∃ hs : List SpawnHandle, x.calls = hs.map .close ∧ hs.Nodup ∧ (∀ h ∈ hs, h ∉ leaked c how) ∧
      ∀ h, own h = true ↔ h ∈ hs ∨ h ∈ leaked c how

theorem Attempt.holds_init (spawnedPath : String) :
    (Attempt.init spawnedPath).Holds fun _ => false where
  session _ := ⟨rfl, rfl⟩
  going _ := by
    refine ⟨List.nodup_nil, fun h => ?_, fun h => ?_⟩
    · cases h <;> simp [Attempt.init, spawnCalls]
    · cases h <;> rfl
  failed _ _ h := by cases h

variable {own own' : SpawnHandle → Bool}

/-- A call of `spawn` itself. -/
theorem Attempt.Holds.goes {c : Call} {calls : List Call} {processes : ℕ} (hx : x.Holds own)
    (hfailure : x.failure = none) (hcalls : x.calls = c :: calls) (hsuffix : x.calls <:+ spawnCalls)
    (hown : ∀ h, own' h = c.opens h (own h)) :
    (c.onAttempt processes { x with calls := calls }).Holds own' := by
  rw [hcalls] at hsuffix
  obtain ⟨houtbound, hreading⟩ := hx.session (by rw [hcalls]; exact List.cons_ne_nil c calls)
  obtain ⟨hnodup, hstreams, hopen⟩ := hx.going hfailure
  have hopen' : ∀ h, own' h = isOpen calls h := by
    intro h
    rw [hown, hopen, houtbound, hreading, hcalls, isOpen_cons hsuffix]
    simp
  by_cases hfrom : ∃ h, c = .fromHandle h
  · obtain ⟨h, rfl⟩ := hfrom
    have hnot : h ∉ x.streams := by
      rw [hstreams, hcalls, not_not]
      exact List.mem_cons_self
    refine ⟨fun _ => ⟨houtbound, hreading⟩, fun _ => ⟨?_, fun h' => ?_, fun h' => ?_⟩, ?_⟩
    · exact List.nodup_cons.mpr ⟨hnot, hnodup⟩
    · have honce := fromHandle_cons hsuffix
      simp only [Call.onAttempt, List.mem_cons, hstreams h', hcalls, Call.fromHandle.injEq, not_or]
      by_cases heq : h' = h
      · subst heq
        simp [honce]
      · simp [heq]
    · simp [Call.onAttempt, hopen' h', houtbound, hreading]
    · intro c how hfailed
      cases hfailure.symm.trans hfailed
  · have hstreams' : ∀ h, h ∈ x.streams ↔ .fromHandle h ∉ calls := by
      intro h
      rw [hstreams, hcalls, List.mem_cons, not_or]
      exact and_iff_right fun heq => hfrom ⟨h, heq.symm⟩
    cases c with
    | fromHandle h => exact absurd ⟨h, rfl⟩ hfrom
    | _ =>
        refine ⟨fun _ => ⟨houtbound, hreading⟩, fun _ => ⟨hnodup, hstreams', fun h' => ?_⟩, ?_⟩
        · simp [Call.onAttempt, hopen' h', houtbound, hreading]
        · intro c how hfailed
          cases hfailure.symm.trans hfailed

/-- A destructor after an exception. -/
theorem Attempt.Holds.unwinds {c c' : Call} {how : Failure} {calls : List Call} {processes : ℕ}
    (hx : x.Holds own) (hfailure : x.failure = some (c', how)) (hcalls : x.calls = c :: calls)
    (hown : ∀ h, own' h = c.opens h (own h)) :
    (c.onAttempt processes { x with calls := calls }).Holds own' := by
  obtain ⟨hchild, hs, heq, hnodup, hleaked, hopen⟩ := hx.failed c' how hfailure
  have hsession := hx.session (by rw [hcalls]; exact List.cons_ne_nil c calls)
  rw [hcalls] at heq
  cases hs with
  | nil => cases heq
  | cons h hs =>
      rw [List.map_cons, List.cons.injEq] at heq
      obtain ⟨rfl, rfl⟩ := heq
      rw [List.nodup_cons] at hnodup
      refine ⟨fun _ => hsession, fun hnone => ?_, fun d how' hfailed => ?_⟩
      · cases hfailure.symm.trans hnone
      · cases hfailure.symm.trans hfailed
        refine ⟨hchild, hs, rfl, hnodup.2, fun h' hh => hleaked h' (List.mem_cons_of_mem _ hh), ?_⟩
        intro h'
        rw [hown, Call.opens, Bool.and_eq_true, decide_eq_true_eq, hopen, List.mem_cons]
        by_cases hh : h' = h
        · subst hh
          simp [hnodup.1, hleaked h' List.mem_cons_self]
        · simp [hh]

/-- A call fails. -/
theorem Attempt.Holds.fails {c : Call} {how : Failure} {calls : List Call} (hx : x.Holds own)
    (hp : x.Program) (hchild : .createProcess ∈ x.calls → x.child = none)
    (hcalls : x.calls = c :: calls) (hthrows : (c.throws x.spawnedPath how).isSome) :
    (x.fail c how).Holds own := by
  have hfailure : x.failure = none := by
    by_contra hne
    obtain ⟨hs, heq⟩ := hp.2 hne
    rw [hcalls] at heq
    cases hs with
    | nil => cases heq
    | cons h hs =>
        rw [List.map_cons, List.cons.injEq] at heq
        rw [heq.1] at hthrows
        cases how <;> cases hthrows
  have hsuffix := hp.1 hfailure
  rw [hcalls] at hsuffix hchild
  obtain ⟨houtbound, hreading⟩ := hx.session (by rw [hcalls]; exact List.cons_ne_nil c calls)
  obtain ⟨hnodup, hstreams, hopen⟩ := hx.going hfailure
  rw [hcalls] at hstreams hopen
  obtain ⟨hleaked, hcloses⟩ := leaked_fails hsuffix hthrows
  have hclosing : (x.fail c how).calls = (c.closes how ++ x.streams).map .close := by
    cases c <;> cases how <;> rfl
  refine ⟨fun _ => ⟨houtbound, hreading⟩, fun hnone => (by cases hnone), fun d how' hfailed => ?_⟩
  cases hfailed
  refine ⟨hchild (createProcess_mem hsuffix hthrows), _, hclosing, ?_, fun h hh => ?_, fun h => ?_⟩
  · refine List.Nodup.append ?_ hnodup fun h hh hmem => (hstreams h).mp hmem (hcloses h hh)
    cases c <;> cases how <;> simp [Call.closes]
  · intro hmem
    obtain ⟨hfrom, hnot⟩ := hleaked h hmem
    rcases List.mem_append.mp hh with hh | hh
    · exact hnot hh
    · exact (hstreams h).mp hh hfrom
  · rw [hopen, houtbound, hreading, List.mem_append, hstreams, ← isOpen_fails hsuffix hthrows]
    simp

/-- A session closes one of the two handles that it keeps. -/
theorem Attempt.Holds.closes {handles : HandleTables (ℕ × SpawnHandle)} {y : Attempt}
    (hx : x.Holds fun h => (handles.own (i, h)).isSome) (hconstructed : x.Constructed)
    (hy : h = .stdinWrite ∧ y = { x with outbound := false } ∨
      h = .stdoutRead ∧ y = { x with reading := false }) :
    y.Holds fun h' => ((handles.close (i, h)).own (i, h')).isSome := by
  obtain ⟨hnodup, hstreams, hopen⟩ := hx.going hconstructed.2
  have hclose : ∀ h', ((handles.close (i, h)).own (i, h')).isSome =
      (Call.close h).opens h' (handles.own (i, h')).isSome :=
    fun h' => isSome_own_onHandles (c := .close h)
  have hopen' : ∀ h', (handles.own (i, h')).isSome = _ := hopen
  simp only [hclose, hopen']
  have hcalls : y.calls = [] := by
    rcases hy with ⟨-, rfl⟩ | ⟨-, rfl⟩ <;> exact hconstructed.1
  have hfailure : y.failure = none := by
    rcases hy with ⟨-, rfl⟩ | ⟨-, rfl⟩ <;> exact hconstructed.2
  refine ⟨fun hne => absurd hcalls hne, fun _ => ?_, fun c how hfailed => ?_⟩
  · rcases hy with ⟨rfl, rfl⟩ | ⟨rfl, rfl⟩
    · refine ⟨hnodup, hstreams, fun h' => ?_⟩
      cases h' <;> simp [Call.opens]
    · refine ⟨hnodup, hstreams, fun h' => ?_⟩
      cases h' <;> simp [Call.opens]
  · cases hfailure.symm.trans hfailed

/-- Every attempt has the handles that its calls account for, and there are no others. -/
structure Accounted (s : Spawner) : Prop where
  holds : ∀ (i : ℕ) (x : Attempt), s.attempts[i]? = some x →
    x.Holds fun h => (s.handles.own (i, h)).isSome
  absent : ∀ (i : ℕ) (h : SpawnHandle), s.attempts.length ≤ i → s.handles.own (i, h) = none

theorem accounted_init : Accounted .init where
  holds _ _ hx := by cases hx
  absent _ _ _ := rfl

/-- The other attempts keep what they have. -/
theorem Accounted.set (hs : Accounted s) (hx : s.attempts[i]? = some x) {y : Attempt}
    {handles : HandleTables (ℕ × SpawnHandle)}
    (hown : ∀ j h, j ≠ i → handles.own (j, h) = s.handles.own (j, h))
    (hy : y.Holds fun h => (handles.own (i, h)).isSome) :
    Accounted { handles := handles, attempts := s.attempts.set i y } := by
  refine ⟨fun j z hz => ?_, fun j h hj => ?_⟩
  · rcases getElem?_set_cases hz with ⟨rfl, rfl⟩ | ⟨hne, hz⟩
    · exact hy
    · simp only [hown j _ hne]
      exact hs.holds j z hz
  · rw [List.length_set] at hj
    rw [hown j h (by have := (List.getElem?_eq_some_iff.mp hx).1; omega)]
    exact hs.absent j h hj

theorem accounted_step (hs : Accounted s) (hsound : Sound s) (hchildren : Children s)
    (h : Taken s e t) : Accounted t := by
  cases h with
  | begins spawnedPath =>
      refine ⟨fun j z hz => ?_, fun j h hj => ?_⟩
      · rcases getElem?_concat_cases hz with hz | ⟨rfl, rfl⟩
        · exact hs.holds j z hz
        · have hnone : ∀ h, s.handles.own (s.attempts.length, h) = none :=
            fun h => hs.absent _ h le_rfl
          simp only [hnone]
          exact Attempt.holds_init spawnedPath
      · rw [List.length_append] at hj
        exact hs.absent j h (by omega)
  | @succeeds i x c calls hx hcalls =>
      refine hs.set hx (fun j h hj => own_onHandles_of_ne hj) ?_
      rcases (hsound.program i x hx).cases with ⟨hfailure, hsuffix⟩ | ⟨hfailure, -⟩
      · exact (hs.holds i x hx).goes hfailure hcalls hsuffix fun h => isSome_own_onHandles
      · obtain ⟨⟨c', how⟩, hfailed⟩ := Option.ne_none_iff_exists'.mp hfailure
        exact (hs.holds i x hx).unwinds hfailed hcalls fun h => isSome_own_onHandles
  | @fails i how x c calls hx hcalls hthrows =>
      refine hs.set hx (fun _ _ _ => rfl) ?_
      exact (hs.holds i x hx).fails (hsound.program i x hx) (hchildren.created i x hx) hcalls
        hthrows
  | @destroys i x hx hconstructed houtbound =>
      refine hs.set hx (fun j h hj => HandleTables.own_close_of_ne (by simp [hj])) ?_
      exact (hs.holds i x hx).closes hconstructed (.inl ⟨rfl, rfl⟩)
  | @finishes i x hx hconstructed hreading =>
      refine hs.set hx (fun j h hj => HandleTables.own_close_of_ne (by simp [hj])) ?_
      exact (hs.holds i x hx).closes hconstructed (.inr ⟨rfl, rfl⟩)
  | childCloses => exact ⟨hs.holds, hs.absent⟩
  | @childExits i q x hx =>
      refine hs.set hx (fun _ _ _ => rfl) ?_
      have hholds := hs.holds i x hx
      exact ⟨hholds.session, hholds.going, hholds.failed⟩

theorem accounted_run {events : List SpawnEvent} (hrun : run Spawner.step .init events = some s) :
    Sound s ∧ Children s ∧ Accounted s :=
  run_invariant_of_step (fun s => Sound s ∧ Children s ∧ Accounted s)
    (fun _ _ _ hs ht => ⟨sound_step hs.1 (step_taken ht),
      children_step hs.2.1 hs.1 (step_taken ht),
      accounted_step hs.2.2 hs.1 hs.2.1 (step_taken ht)⟩)
    ⟨sound_init, children_init, accounted_init⟩ hrun

/-- A call of `spawn` that has thrown has started no process. Of its handles those are left open
that `from_handle` does not make streams of, and none where another call has failed. -/
theorem failed_spawn_leaves {events : List SpawnEvent} {c : Call} {how : Failure}
    (hrun : run Spawner.step .init events = some s) (hx : s.attempts[i]? = some x)
    (hcalls : x.calls = []) (hfailure : x.failure = some (c, how)) :
    x.child = none ∧ ∀ h, s.handles.own (i, h) ≠ none ↔ h ∈ leaked c how := by
  obtain ⟨-, -, haccounted⟩ := accounted_run hrun
  obtain ⟨hchild, hs, heq, -, -, hopen⟩ := (haccounted.holds i x hx).failed c how hfailure
  rw [hcalls] at heq
  rw [List.map_eq_nil_iff.mp heq.symm] at hopen
  refine ⟨hchild, fun h => ?_⟩
  rw [← Option.isSome_iff_ne_none, hopen, List.mem_nil_iff, false_or]

/-- `_open_osfhandle` fails for the first end of the second pipe. -/
theorem failed_spawn_leaves_output :
    ∃ s x, run Spawner.step .init
        ([.begins "a"] ++ List.replicate 4 (.succeeds 0) ++ [.fails 0 .call, .succeeds 0,
          .succeeds 0]) = some s ∧ s.attempts[0]? = some x ∧
      x.threw = some (.runtimeError "crt error") ∧
      ∀ h, s.handles.own (0, h) ≠ none ↔ h ∈ [.stdoutRead, .stdoutWrite] := by
  obtain ⟨s, x, hrun, hx, hthrew, hcalls, hfailure⟩ : ∃ s x, run Spawner.step .init
        ([.begins "a"] ++ List.replicate 4 (.succeeds 0) ++ [.fails 0 .call, .succeeds 0,
          .succeeds 0]) = some s ∧ s.attempts[0]? = some x ∧
      x.threw = some (.runtimeError "crt error") ∧ x.calls = [] ∧
      x.failure = some (.fromHandle .stdoutRead, .call) := ⟨_, _, rfl, rfl, rfl, rfl, rfl⟩
  exact ⟨s, x, hrun, hx, hthrew, (failed_spawn_leaves hrun hx hcalls hfailure).2⟩

end CohesionIpc.Spawn.Windows
