import CohesionIpc.Model.SpawnAttempt

/-! What a failed `spawn` leaves behind. The destructors give back every descriptor, wherever the
call fails; a child whose `execve` has failed is not waited for. -/

namespace CohesionIpc.Spawn

open Transition DescriptorTable

/-! ## The constructor of a pipe -/

def PipeFaults.any (f : PipeFaults) : Bool := f.pipe || f.fdopenRead || f.fdopenWrite

/-- A call before `execve` fails. -/
def Faults.beforeExec (f : Faults) : Bool :=
  f.toPipe.any || f.fromPipe.any || f.fromError.any || f.fork

variable {k k' : Kernel} {base : DescriptorTable} {fds : List ℕ}

theorem tables_pipe {q r w : ℕ} (hk : k.pipe q r w = some k') :
    k'.tables q = (k.tables q).addPipe k.pipes r w := by
  simp only [Kernel.pipe, Option.ite_none_right_eq_some, Option.some.injEq] at hk
  rw [← hk.2]
  exact Function.update_self _ _ _

theorem pipe_lowest {p : ℕ × ℕ} (h : (k.tables parent).Lowest p) :
    ∃ k', k.pipe parent p.1 p.2 = some k' := by
  rw [Kernel.pipe, if_pos ⟨h.first, h.second, h.ne⟩]
  exact ⟨_, rfl⟩

/-- Without a failure a pipe is opened. -/
structure PipeOpened (k : Kernel) (p : AnonymousPipe) (k' : Kernel) : Prop where
  number : p.number = k.pipes
  lowest : (k.tables parent).Lowest (p.read, p.write)
  pipe : k.pipe parent p.read p.write = some k'

theorem openPipe_ok {f : PipeFaults} (hf : f.any = false) (k : Kernel) :
    ∃ p k', openPipe k f = (k', .ok p) ∧ PipeOpened k p k' := by
  simp only [PipeFaults.any, Bool.or_eq_false_iff] at hf
  obtain ⟨⟨hpipe, hread⟩, hwrite⟩ := hf
  have hlowest := (k.tables parent).lowestTwo_spec
  rw [openPipe]
  generalize (k.tables parent).lowestTwo = fds at hlowest ⊢
  obtain ⟨k', hk'⟩ := pipe_lowest hlowest
  refine ⟨⟨k.pipes, fds.1, fds.2⟩, k', ?_, rfl, hlowest, hk'⟩
  simp [hpipe, hk', fromFd, hread, hwrite]

theorem PipeOpened.beside {p : AnonymousPipe} (h : PipeOpened k p k')
    (hbase : base.Beside (k.tables parent) fds) :
    base.Beside (k'.tables parent) (p.files ++ fds) := by
  rw [tables_pipe h.pipe]
  refine (hbase.insert h.lowest.first _).insert ?_ _
  rw [AList.mem_insert, not_or]
  exact ⟨fun heq => h.lowest.ne heq.symm, h.lowest.second⟩

/-- With a failure the destructors of the members are left. -/
theorem openPipe_error {f : PipeFaults} (hf : f.any = true)
    (hbase : base.Beside (k.tables parent) fds) :
    ∃ k' fds' e, openPipe k f = (k', .error (fds', e)) ∧
      base.Beside (k'.tables parent) (fds' ++ fds) := by
  by_cases hpipe : f.pipe
  · exact ⟨k, [], .badAlloc, by simp [openPipe, hpipe], hbase⟩
  have hlowest := (k.tables parent).lowestTwo_spec
  rw [openPipe]
  generalize (k.tables parent).lowestTwo = p at hlowest ⊢
  obtain ⟨k', hk'⟩ := pipe_lowest hlowest
  have hopened : PipeOpened k ⟨k.pipes, p.1, p.2⟩ k' := ⟨rfl, hlowest, hk'⟩
  have hbeside : base.Beside (k'.tables parent) (p.2 :: p.1 :: fds) := hopened.beside hbase
  cases hread : f.fdopenRead with
  | true =>
      have hclosed : base.Beside ((k'.close parent p.1).tables parent) (p.2 :: fds) := by
        rw [Kernel.close, Kernel.tables_modify_self]
        exact (hbeside.of_subset (List.Perm.swap _ _ _).subset (List.Perm.swap _ _ _).subset).close
      cases hwrite : f.fdopenWrite with
      | true =>
          refine ⟨(k'.close parent p.1).close parent p.2, [], .runtimeError "crt stream error",
            ?_, ?_⟩
          · simp [hpipe, hk', fromFd]
          · rw [Kernel.close, Kernel.tables_modify_self]
            exact hclosed.close
      | false =>
          refine ⟨k'.close parent p.1, [p.2], .runtimeError "crt stream error", ?_, hclosed⟩
          simp [hpipe, hk', fromFd]
  | false =>
      cases hwrite : f.fdopenWrite with
      | true =>
          refine ⟨k'.close parent p.2, [p.1], .runtimeError "crt stream error", ?_, ?_⟩
          · simp [hpipe, hk', fromFd]
          · rw [Kernel.close, Kernel.tables_modify_self]
            exact hbeside.close
      | false => simp [PipeFaults.any, hpipe, hread, hwrite] at hf

/-! ## Up to `fork` -/

/-- The kernels between the pipes. -/
structure ThreeOpened (k : Kernel) (p : Pipes) (k₁ k₂ k₃ : Kernel) : Prop where
  toChild : PipeOpened k p.toChild k₁
  fromChild : PipeOpened k₁ p.fromChild k₂
  fromError : PipeOpened k₂ p.fromError k₃

theorem ThreeOpened.beside {p : Pipes} {k₁ k₂ k₃ : Kernel} (h : ThreeOpened k p k₁ k₂ k₃) :
    (k.tables parent).Beside ((k₃.setCloseOnExec parent p.fromError.write).tables parent)
      p.files := by
  have hbeside := h.fromError.beside (h.fromChild.beside (h.toChild.beside (Beside.refl _)))
  rw [List.append_nil, ← List.append_assoc] at hbeside
  rw [Kernel.setCloseOnExec, Kernel.tables_modify_self]
  exact hbeside.setCloseOnExec (by simp [AnonymousPipe.files])

theorem start_of_opened {f : Faults} (hto : f.toPipe.any = false) (hfrom : f.fromPipe.any = false)
    (herror : f.fromError.any = false) (k : Kernel) :
    ∃ p k₁ k₂ k₃, ThreeOpened k p k₁ k₂ k₃ ∧ Attempt.start k f =
      if f.fork then
        .childless (k₃.setCloseOnExec parent p.fromError.write)
          (.unwinding p.files Attempt.forkingFailed)
      else .forked (k₃.setCloseOnExec parent p.fromError.write) p := by
  obtain ⟨into, k₁, h₁, hinto⟩ := openPipe_ok hto k
  obtain ⟨back, k₂, h₂, hback⟩ := openPipe_ok hfrom k₁
  obtain ⟨error, k₃, h₃, herr⟩ := openPipe_ok herror k₂
  refine ⟨⟨into, back, error⟩, k₁, k₂, k₃, ⟨hinto, hback, herr⟩, ?_⟩
  rw [Attempt.start, h₁]
  simp only [h₂, h₃]

/-- Where a call before `execve` fails, what has been opened is left to the destructors. -/
theorem start_of_beforeExec {f : Faults} (hf : f.beforeExec = true) (k : Kernel) :
    ∃ k' fds e, Attempt.start k f = .childless k' (.unwinding fds e) ∧
      (k.tables parent).Beside (k'.tables parent) fds := by
  by_cases hto : f.toPipe.any = true
  · obtain ⟨k₁, fds, e, h₁, hbeside⟩ := openPipe_error hto (Beside.refl (k.tables parent))
    rw [List.append_nil] at hbeside
    exact ⟨k₁, fds, e, by rw [Attempt.start, h₁], hbeside⟩
  rw [Bool.not_eq_true] at hto
  obtain ⟨into, k₁, h₁, hinto⟩ := openPipe_ok hto k
  have hbeside₁ := hinto.beside (Beside.refl (k.tables parent))
  by_cases hfrom : f.fromPipe.any = true
  · obtain ⟨k₂, fds, e, h₂, hbeside⟩ := openPipe_error hfrom hbeside₁
    rw [List.append_nil] at hbeside
    exact ⟨k₂, _, e, by rw [Attempt.start, h₁]; simp only [h₂], hbeside⟩
  rw [Bool.not_eq_true] at hfrom
  obtain ⟨back, k₂, h₂, hback⟩ := openPipe_ok hfrom k₁
  by_cases herror : f.fromError.any = true
  · obtain ⟨k₃, fds, e, h₃, hbeside⟩ := openPipe_error herror (hback.beside hbeside₁)
    rw [List.append_nil, ← List.append_assoc] at hbeside
    exact ⟨k₃, _, e, by rw [Attempt.start, h₁]; simp only [h₂, h₃], hbeside⟩
  rw [Bool.not_eq_true] at herror
  obtain ⟨p, k₁, k₂, k₃, hopened, hstart⟩ := start_of_opened hto hfrom herror k
  have hfork : f.fork = true := by simpa [Faults.beforeExec, hto, hfrom, herror] using hf
  rw [if_pos hfork] at hstart
  exact ⟨_, _, _, hstart, hopened.beside⟩

/-! ## The destructors -/

/-- The parent closes what it has opened, and then the exception leaves the constructor. -/
inductive GivesBack (base t : DescriptorTable) (e : Exception) : ParentStage → Prop
  | unwinding {fds : List ℕ} (h : base.Beside t fds) : GivesBack base t e (.unwinding fds e)
  | threw (h : base.Beside t []) : GivesBack base t e (.threw e)

variable {s t : Attempt} {e : Exception} {path : String}

/-- Only the parent's own table and stage change in its steps, until the thread starts. -/
structure ParentFrame (s t : Attempt) : Prop where
  pid : t.pid = s.pid
  child : t.child = s.child
  report : t.report = s.report
  unwaited : t.unwaited = s.unwaited
  exitHandlerCalls : t.exitHandlerCalls = s.exitHandlerCalls
  tables : ∀ q, q ≠ parent → t.kernel.tables q = s.kernel.tables q
  processes : t.kernel.processes = s.kernel.processes
  thread : s.parent ≠ .returning [] → t.thread = s.thread

theorem ParentFrame.of_stage (s : Attempt) (stage : ParentStage) :
    ParentFrame s { s with parent := stage } :=
  ⟨rfl, rfl, rfl, rfl, rfl, fun _ _ => rfl, rfl, fun _ => rfl⟩

theorem ParentFrame.of_close (s : Attempt) (fd : ℕ) (stage : ParentStage) :
    ParentFrame s { s with kernel := s.kernel.close parent fd, parent := stage } :=
  ⟨rfl, rfl, rfl, rfl, rfl, fun _ h => Function.update_of_ne h _ _, rfl, fun _ => rfl⟩

theorem parentStep_frame (h : s.parentStep path = some t) : ParentFrame s t := by
  simp only [Attempt.parentStep] at h
  split at h
  · cases h
    exact .of_close s _ _
  · split at h
    · cases h
      exact .of_stage s _
    · rw [Option.ite_none_right_eq_some, Option.some.injEq] at h
      rw [← h.2]
      exact .of_stage s _
  · cases h
    exact .of_close s _ _
  · cases h
    exact .of_stage s _
  · cases h
    exact .of_close s _ _
  · rename_i hstage
    cases h
    exact ⟨rfl, rfl, rfl, rfl, rfl, fun _ _ => rfl, rfl, fun hne => absurd hstage hne⟩
  · cases h
  · cases h

theorem GivesBack.step {base : DescriptorTable}
    (hs : GivesBack base (s.kernel.tables parent) e s.parent) (h : s.parentStep path = some t) :
    GivesBack base (t.kernel.tables parent) e t.parent := by
  generalize hstage : s.parent = stage at hs
  cases hs with
  | threw hbeside =>
      simp only [Attempt.parentStep, hstage] at h
      cases h
  | @unwinding fds hbeside =>
      simp only [Attempt.parentStep, hstage] at h
      cases fds with
      | nil =>
          cases h
          exact .threw hbeside
      | cons fd fds =>
          cases h
          refine .unwinding ?_
          rw [Kernel.close, Kernel.tables_modify_self]
          exact hbeside.close

/-- No child has been made. -/
structure Childless (base : DescriptorTable) (e : Exception) (s : Attempt) : Prop where
  child : s.child = .absent
  thread : s.thread = .notStarted
  exitHandlerCalls : s.exitHandlerCalls = 0
  unwaited : s.unwaited = []
  parent : GivesBack base (s.kernel.tables Spawn.parent) e s.parent

theorem GivesBack.ne_returning {base t : DescriptorTable} {stage : ParentStage}
    (h : GivesBack base t e stage) : stage ≠ .returning [] := by
  cases h <;> exact fun h => by cases h

theorem Childless.step {base : DescriptorTable} {f : Faults} {who : Who} (hs : Childless base e s)
    (h : s.step path f who = some t) : Childless base e t := by
  cases who with
  | parent =>
      have hframe := parentStep_frame h
      exact ⟨hframe.child.trans hs.child,
        (hframe.thread hs.parent.ne_returning).trans hs.thread,
        hframe.exitHandlerCalls.trans hs.exitHandlerCalls, hframe.unwaited.trans hs.unwaited,
        hs.parent.step h⟩
  | child =>
      simp only [Attempt.step, Attempt.childStep, hs.child] at h
      cases h
  | thread =>
      simp only [Attempt.step, Attempt.threadStep, hs.thread] at h
      cases h

/-! ## The report of a failed `execve` -/

/-- The descriptor at `fd` stays what it is. -/
def Call.Spares (fd : ℕ) : Call → Prop
  | .close fd' => fd' ≠ fd
  | .dup2 _ target => target ≠ fd
  | .exec | .awaitEof => True

/-- The parent until the report has come, and then with its exception. -/
inductive Awaits (base t : DescriptorTable) (p : Pipes) (e : Exception) : ParentStage → Prop
  | closing (h : base.Beside t p.files) : Awaits base t p e (.closing p)
  | reading (h : base.Beside t ([p.fromError.read] ++ p.fromChild.files ++ p.toChild.files)) :
      Awaits base t p e (.reading p)
  | givesBack {stage : ParentStage} (h : GivesBack base t e stage) : Awaits base t p e stage

/-- The child can write to the third pipe until it has. -/
inductive Reports (t : DescriptorTable) (p : Pipes) (error : ℕ) : ChildStage → Option ℕ → Prop
  | preparing {call : Call} {calls : List Call} (hcalls : call :: calls <:+ childCalls p)
      (held : (t.lookup p.fromError.write).map Descriptor.file =
        some (.writeEnd p.fromError.number)) :
      Reports t p error (.preparing p (call :: calls)) none
  | writing
      (held : (t.lookup p.fromError.write).map Descriptor.file =
        some (.writeEnd p.fromError.number)) :
      Reports t p error (.writing p error) none
  | leaving : Reports t p error .leaving (some error)
  | exited : Reports t p error .exited (some error)

/-- A spawn whose `execve` fails. -/
structure Failing (base : DescriptorTable) (path : String) (p : Pipes) (error : ℕ) (s : Attempt) :
    Prop where
  pid_ne : s.pid ≠ Spawn.parent
  pid_lt : s.pid < s.kernel.processes
  unwaited : s.unwaited = [s.pid]
  thread : s.thread = .notStarted
  exitHandlerCalls : s.exitHandlerCalls = 0
  parent : Awaits base (s.kernel.tables Spawn.parent) p (Attempt.failedToExecute path error)
    s.parent
  child : Reports (s.kernel.tables s.pid) p error s.child s.report

theorem Awaits.ne_returning {base t : DescriptorTable} {p : Pipes} {stage : ParentStage}
    (h : Awaits base t p e stage) : stage ≠ .returning [] := by
  cases h with
  | closing | reading => exact fun h => by cases h
  | givesBack h => exact h.ne_returning

/-- Nobody is left to write: the child has reported. -/
theorem Reports.of_eof {p : Pipes} {error pid : ℕ} {stage : ChildStage}
    (h : Reports (k.tables pid) p error stage none) (hpid : pid < k.processes) :
    ¬ k.Eof p.fromError.number := by
  have hheld : ((k.tables pid).lookup p.fromError.write).map Descriptor.file =
      some (.writeEnd p.fromError.number) := by
    cases h with
    | preparing _ held | writing held => exact held
  obtain ⟨d, hd, hfile⟩ := Option.map_eq_some_iff.mp hheld
  exact fun heof => heof pid hpid (refers_iff.mpr ⟨_, d, hd, hfile⟩)

theorem Reports.eq_of_some {t : DescriptorTable} {p : Pipes} {error error' : ℕ}
    {stage : ChildStage} (h : Reports t p error stage (some error')) : error' = error := by
  cases h <;> rfl

theorem Failing.awaits_step {base : DescriptorTable} {p : Pipes} {error : ℕ}
    (hs : Failing base path p error s) (h : s.parentStep path = some t) :
    Awaits base (t.kernel.tables Spawn.parent) p (Attempt.failedToExecute path error) t.parent := by
  have hawaits := hs.parent
  generalize hstage : s.parent = stage at hawaits
  cases hawaits with
  | givesBack hgives => exact .givesBack (GivesBack.step (hstage ▸ hgives) h)
  | closing hbeside =>
      simp only [Attempt.parentStep, hstage] at h
      cases h
      refine .reading ?_
      rw [Kernel.close, Kernel.tables_modify_self]
      exact hbeside.close
  | reading hbeside =>
      have hchild := hs.child
      simp only [Attempt.parentStep, hstage] at h
      split at h
      · rename_i error' hreport
        rw [hreport] at hchild
        cases h
        rw [hchild.eq_of_some]
        exact .givesBack (.unwinding hbeside)
      · rename_i hreport
        rw [hreport] at hchild
        rw [if_neg (hchild.of_eof hs.pid_lt)] at h
        cases h

/-- What a call of the child does to its own table, and to nothing else. -/
theorem held_run {p : Pipes} {call : Call} {pid fd : ℕ} {file : OpenFile}
    (hspares : call.Spares fd) (hexec : call ≠ .exec)
    (hheld : ((k.tables pid).lookup fd).map Descriptor.file = some file)
    (h : call.run p pid k = some k') :
    ((k'.tables pid).lookup fd).map Descriptor.file = some file ∧
      k'.processes = k.processes ∧ ∀ q, q ≠ pid → k'.tables q = k.tables q := by
  cases call with
  | exec => exact absurd rfl hexec
  | close fd' =>
      cases h
      refine ⟨?_, rfl, fun q hq => Function.update_of_ne hq _ _⟩
      rw [Kernel.close, Kernel.tables_modify_self, AList.lookup_erase_ne hspares.symm]
      exact hheld
  | dup2 fd' target =>
      cases h
      refine ⟨?_, rfl, fun q hq => Function.update_of_ne hq _ _⟩
      rw [Kernel.dup2, Kernel.tables_modify_self, lookup_dup2_of_ne hspares.symm]
      exact hheld
  | awaitEof =>
      simp only [Call.run, Option.ite_none_right_eq_some, Option.some.injEq] at h
      rw [← h.2]
      exact ⟨hheld, rfl, fun _ _ => rfl⟩

theorem Failing.childStep {base : DescriptorTable} {p : Pipes} {error : ℕ} {f : Faults}
    (hs : Failing base path p error s)
    (hspares : ∀ call ∈ childCalls p, call.Spares p.fromError.write)
    (hf : f.execve = some error) (h : s.childStep f = some t) : Failing base path p error t := by
  have hchild := hs.child
  generalize hstage : s.child = stage at hchild
  generalize hreport : s.report = report at hchild
  cases hchild with
  | @preparing call calls hcalls held =>
      by_cases hexec : call = .exec
      · subst hexec
        simp only [Attempt.childStep, hstage, hf, Option.some.injEq] at h
        subst h
        refine ⟨hs.pid_ne, hs.pid_lt, hs.unwaited, hs.thread, hs.exitHandlerCalls, hs.parent, ?_⟩
        rw [hreport]
        exact .writing held
      · have hrun : ∃ k', call.run p s.pid s.kernel = some k' ∧
            { s with kernel := k', child := .preparing p calls } = t := by
          cases call with
          | exec => exact absurd rfl hexec
          | close | dup2 | awaitEof =>
              simp only [Attempt.childStep, hstage] at h
              exact Option.map_eq_some_iff.mp h
        obtain ⟨k', hrun, rfl⟩ := hrun
        obtain ⟨hheld, hprocesses, hothers⟩ :=
          held_run (hspares call (hcalls.subset List.mem_cons_self)) hexec held hrun
        have hparent := hs.parent
        rw [← hothers _ hs.pid_ne.symm] at hparent
        refine ⟨hs.pid_ne, ?_, hs.unwaited, hs.thread, hs.exitHandlerCalls, hparent, ?_⟩
        · change s.pid < k'.processes
          rw [hprocesses]
          exact hs.pid_lt
        · change Reports _ _ _ _ s.report
          rw [hreport]
          cases calls with
          | nil =>
              obtain ⟨before, hbefore⟩ := hcalls
              have hlast := congrArg List.getLast? hbefore
              simp [childCalls] at hlast
              exact absurd hlast hexec
          | cons call' calls => exact .preparing ((List.suffix_cons _ _).trans hcalls) hheld
  | writing held =>
      simp only [Attempt.childStep, hstage, held, if_true, Option.some.injEq] at h
      subst h
      exact ⟨hs.pid_ne, hs.pid_lt, hs.unwaited, hs.thread, hs.exitHandlerCalls, hs.parent, .leaving⟩
  | leaving =>
      simp only [Attempt.childStep, hstage, Option.some.injEq] at h
      subst h
      have hparent := hs.parent
      refine ⟨hs.pid_ne, hs.pid_lt, hs.unwaited, hs.thread, hs.exitHandlerCalls, ?_, ?_⟩
      · change Awaits _ ((s.kernel.exit s.pid).tables Spawn.parent) _ _ _
        rw [Kernel.exit, Kernel.tables_modify_of_ne hs.pid_ne.symm]
        exact hs.parent
      · change Reports _ _ _ _ s.report
        rw [hreport]
        exact .exited
  | exited =>
      simp only [Attempt.childStep, hstage] at h
      cases h

theorem Failing.step {base : DescriptorTable} {p : Pipes} {error : ℕ} {f : Faults} {who : Who}
    (hs : Failing base path p error s)
    (hspares : ∀ call ∈ childCalls p, call.Spares p.fromError.write)
    (hf : f.execve = some error) (h : s.step path f who = some t) :
    Failing base path p error t := by
  cases who with
  | child => exact hs.childStep hspares hf h
  | thread =>
      simp only [Attempt.step, Attempt.threadStep, hs.thread] at h
      cases h
  | parent =>
      have hframe := parentStep_frame h
      refine ⟨?_, ?_, ?_, ?_, ?_, hs.awaits_step h, ?_⟩
      · rw [hframe.pid]
        exact hs.pid_ne
      · rw [hframe.pid, hframe.processes]
        exact hs.pid_lt
      · rw [hframe.unwaited, hframe.pid]
        exact hs.unwaited
      · rw [hframe.thread hs.parent.ne_returning]
        exact hs.thread
      · rw [hframe.exitHandlerCalls]
        exact hs.exitHandlerCalls
      · rw [hframe.pid, hframe.child, hframe.report, hframe.tables _ hs.pid_ne]
        exact hs.child

/-- The third pipe is apart from what the child closes and from its standard streams. -/
theorem spares_of_opened {p : Pipes} {k₁ k₂ k₃ : Kernel} (h : ThreeOpened k p k₁ k₂ k₃) :
    ∀ call ∈ childCalls p, call.Spares p.fromError.write := by
  have hinto := Kernel.pipe_spec h.toChild.pipe
  have hback := Kernel.pipe_spec h.fromChild.pipe
  have hfree := h.fromError.lowest.second
  have hne : ∀ fd, fd ∈ k₂.tables parent → fd ≠ p.fromError.write := by
    rintro fd hfd rfl
    exact hfree hfd
  have hmem : ∀ {k : Kernel} {fd : ℕ} {d : Descriptor}, (k.tables parent).lookup fd = some d →
      fd ∈ k.tables parent :=
    fun hd => AList.lookup_isSome.mp (Option.isSome_iff_exists.mpr ⟨_, hd⟩)
  have hzero : 0 ∈ k₂.tables parent := by
    apply hback.mem
    rcases h.toChild.lowest.zero with h0 | h0
    · exact hinto.mem h0
    · exact h0 ▸ hmem hinto.read
  simp only [childCalls, List.mem_cons, List.not_mem_nil, or_false]
  rintro call (rfl | rfl | rfl | rfl | rfl | rfl)
  · exact hne _ (hback.mem (hmem hinto.write))
  · exact hne _ (hmem hback.read)
  · exact h.fromError.lowest.ne
  · exact h.fromError.lowest.second_pos.symm
  · exact (h.fromError.lowest.second_ne_one hzero).symm
  · trivial

theorem failing_start {f : Faults} (hf : f.beforeExec = false) (hk : parent < k.processes)
    (path : String) (error : ℕ) :
    ∃ p, (∀ call ∈ childCalls p, call.Spares p.fromError.write) ∧
      Failing (k.tables parent) path p error (Attempt.start k f) := by
  simp only [Faults.beforeExec, Bool.or_eq_false_iff] at hf
  obtain ⟨⟨⟨hto, hfrom⟩, herror⟩, hfork⟩ := hf
  obtain ⟨p, k₁, k₂, k₃, hopened, hstart⟩ := start_of_opened hto hfrom herror k
  rw [hfork, if_neg (by decide)] at hstart
  have hinto := Kernel.pipe_spec hopened.toChild.pipe
  have hback := Kernel.pipe_spec hopened.fromChild.pipe
  have herr := Kernel.pipe_spec hopened.fromError.pipe
  have hpid : parent < k₃.processes := by
    rw [herr.processes, hback.processes, hinto.processes]
    exact hk
  refine ⟨p, spares_of_opened hopened, ?_⟩
  rw [hstart]
  refine ⟨hpid.ne', Nat.lt_succ_self _, rfl, rfl, rfl, .closing ?_, ?_⟩
  · have htable : ((k₃.setCloseOnExec parent p.fromError.write).fork parent).tables parent =
        (k₃.setCloseOnExec parent p.fromError.write).tables parent :=
      Kernel.tables_fork_of_ne hpid.ne
    change (k.tables parent).Beside
      (((k₃.setCloseOnExec parent p.fromError.write).fork parent).tables parent) p.files
    rw [htable]
    exact hopened.beside
  · refine .preparing (List.suffix_refl _) ?_
    change ((((k₃.setCloseOnExec parent p.fromError.write).fork parent).tables
      (k₃.setCloseOnExec parent p.fromError.write).processes).lookup _).map _ = _
    rw [Kernel.tables_fork_new, Kernel.setCloseOnExec, Kernel.tables_modify_self,
      lookup_setCloseOnExec_self herr.write, hopened.fromError.number]
    rfl

/-! ## The call comes to an end -/

def ParentStage.left : ParentStage → ℕ
  | .closing _ => 9
  | .reading _ => 8
  | .unwinding fds _ | .returning fds => fds.length + 2
  | .threw _ | .constructed => 0

def ChildStage.left : ChildStage → ℕ
  | .preparing _ calls => calls.length + 2
  | .writing _ _ => 2
  | .leaving | .executing => 1
  | .absent | .exited => 0

def SessionThread.left : SessionThread → ℕ
  | .notStarted => 2
  | .running => 1
  | .ended => 0

/-- The steps that are left to the parent, its child and the thread. -/
def Attempt.left (s : Attempt) : ℕ := s.parent.left + s.child.left + s.thread.left

theorem left_parentStep (h : s.parentStep path = some t) : t.left < s.left := by
  simp only [Attempt.parentStep] at h
  split at h
  · rename_i hstage
    cases h
    simp [Attempt.left, hstage, ParentStage.left]
  · rename_i hstage
    split at h
    · cases h
      simp [Attempt.left, hstage, ParentStage.left, AnonymousPipe.files]
    · rw [Option.ite_none_right_eq_some, Option.some.injEq] at h
      rw [← h.2]
      simp [Attempt.left, hstage, ParentStage.left]
  · rename_i hstage
    cases h
    simp [Attempt.left, hstage, ParentStage.left]
  · rename_i hstage
    cases h
    simp [Attempt.left, hstage, ParentStage.left]
  · rename_i hstage
    cases h
    simp [Attempt.left, hstage, ParentStage.left]
  · rename_i hstage
    cases h
    simp only [Attempt.left, hstage, ParentStage.left, SessionThread.left, List.length_nil]
    omega
  · cases h
  · cases h

theorem left_childStep {f : Faults} (h : s.childStep f = some t) : t.left < s.left := by
  simp only [Attempt.childStep] at h
  split at h
  · rename_i hstage
    split at h
    · cases h
      simp [Attempt.left, hstage, ChildStage.left]
    · cases h
      simp [Attempt.left, hstage, ChildStage.left]
  · rename_i hstage
    obtain ⟨k', -, rfl⟩ := Option.map_eq_some_iff.mp h
    simp [Attempt.left, hstage, ChildStage.left]
  · cases h
  · rename_i hstage
    cases h
    simp [Attempt.left, hstage, ChildStage.left]
  · rename_i hstage
    cases h
    simp [Attempt.left, hstage, ChildStage.left]
  · rename_i hstage
    cases h
    simp [Attempt.left, hstage, ChildStage.left]
  · cases h
  · cases h

theorem left_step {f : Faults} {who : Who} (h : s.step path f who = some t) : t.left < s.left := by
  cases who with
  | parent => exact left_parentStep h
  | child => exact left_childStep h
  | thread =>
      simp only [Attempt.step, Attempt.threadStep] at h
      split at h
      · rename_i hthread _
        cases h
        simp [Attempt.left, hthread, SessionThread.left]
      · cases h

def ParentStage.ended : ParentStage → Bool
  | .threw _ | .constructed => true
  | .closing _ | .reading _ | .unwinding _ _ | .returning _ => false

theorem GivesBack.goes_on {base : DescriptorTable} (path : String)
    (hs : GivesBack base (s.kernel.tables parent) e s.parent) :
    s.parent.ended ∨ (s.parentStep path).isSome := by
  generalize hstage : s.parent = stage at hs
  cases hs with
  | threw => exact .inl rfl
  | @unwinding fds =>
      right
      cases fds <;> simp [Attempt.parentStep, hstage]

theorem Failing.goes_on {base : DescriptorTable} {p : Pipes} {error : ℕ} {f : Faults}
    (hs : Failing base path p error s) (hf : f.execve = some error) :
    s.parent.ended ∨ ∃ who, (s.step path f who).isSome := by
  have hparent := hs.parent
  generalize hstage : s.parent = stage at hparent
  cases hparent with
  | givesBack hgives =>
      rw [← hstage] at hgives ⊢
      exact (hgives.goes_on path).imp_right fun h => ⟨.parent, h⟩
  | closing => exact .inr ⟨.parent, by simp [Attempt.step, Attempt.parentStep, hstage]⟩
  | reading =>
      right
      have hchild := hs.child
      generalize hcstage : s.child = cstage at hchild
      generalize hreport : s.report = report at hchild
      cases hchild with
      | @preparing call calls hcalls held =>
          refine ⟨.child, ?_⟩
          have hmem := hcalls.subset List.mem_cons_self
          cases call with
          | close | dup2 => simp [Attempt.step, Attempt.childStep, hcstage, Call.run]
          | exec => simp [Attempt.step, Attempt.childStep, hcstage, hf]
          | awaitEof => simp [childCalls] at hmem
      | writing => exact ⟨.child, by simp [Attempt.step, Attempt.childStep, hcstage]⟩
      | leaving | exited =>
          exact ⟨.parent, by simp [Attempt.step, Attempt.parentStep, hstage, hreport]⟩

/-! ## What is left behind -/

/-- The constructor has thrown, and nothing of it is left in the parent. -/
structure AsItWas (k : Kernel) (s : Attempt) : Prop where
  threw : ∃ e, s.parent = .threw e
  thread : s.thread = .notStarted
  exitHandlerCalls : s.exitHandlerCalls = 0
  descriptors : ∀ fd, (s.kernel.tables parent).lookup fd = (k.tables parent).lookup fd
  children : s.unwaited = []

/-- However the processes take turns, the call comes to an end, and then the parent is as it was;
a failure of `execve` is reported as such. -/
structure LeavesAsItWas (path : String) (k : Kernel) (f : Faults) : Prop where
  ends : ∀ turns s, run (Attempt.step path f) (Attempt.start k f) turns = some s →
    turns.length ≤ (Attempt.start k f).left ∧
      (s.parent.ended ∨ ∃ who, (s.step path f who).isSome)
  restored : ∀ turns s, run (Attempt.step path f) (Attempt.start k f) turns = some s →
    s.parent.ended → AsItWas k s
  reported : f.beforeExec = false → ∀ error, f.execve = some error → ∀ turns s,
    run (Attempt.step path f) (Attempt.start k f) turns = some s → s.parent.ended →
      s.parent = .threw (Attempt.failedToExecute path error)

theorem length_le_left {f : Faults} {turns : List Who} {s t : Attempt}
    (hrun : run (Attempt.step path f) s turns = some t) : turns.length ≤ s.left := by
  have hle : turns.countP (fun _ => true) + t.left ≤ s.left := by
    refine countP_add_le_of_measure (P := fun _ _ => True) (fun _ => True) Attempt.left ?_ trivial
      (along_of_forall (fun _ _ _ => trivial) s) hrun
    intro s who t _ _ h
    refine ⟨trivial, ?_⟩
    rw [if_pos rfl, Nat.add_comm]
    exact left_step h
  rw [List.countP_true] at hle
  exact (Nat.le_add_right _ _).trans hle

theorem GivesBack.of_ended {base t : DescriptorTable} {stage : ParentStage}
    (h : GivesBack base t e stage) (hended : stage.ended) :
    stage = .threw e ∧ ∀ fd, t.lookup fd = base.lookup fd := by
  cases h with
  | unwinding => cases hended
  | threw h => exact ⟨rfl, fun fd => h.same fd List.not_mem_nil⟩

theorem Awaits.of_ended {base t : DescriptorTable} {p : Pipes} {stage : ParentStage}
    (h : Awaits base t p e stage) (hended : stage.ended) :
    stage = .threw e ∧ ∀ fd, t.lookup fd = base.lookup fd := by
  cases h with
  | closing | reading => cases hended
  | givesBack h => exact h.of_ended hended

/-- Where no child has been made, nothing is left. -/
theorem leavesAsItWas_of_beforeExec {f : Faults} (hf : f.beforeExec = true) (path : String)
    (k : Kernel) : LeavesAsItWas path k f := by
  obtain ⟨k', fds, e, hstart, hbeside⟩ := start_of_beforeExec hf k
  have hchildless : Childless (k.tables parent) e (Attempt.start k f) := by
    rw [hstart]
    exact ⟨rfl, rfl, rfl, rfl, .unwinding hbeside⟩
  have hrun : ∀ turns s, run (Attempt.step path f) (Attempt.start k f) turns = some s →
      Childless (k.tables parent) e s := fun turns s =>
    run_invariant_of_step _ (fun s who t hs ht => hs.step ht) hchildless
  refine ⟨?_, ?_, ?_⟩
  · intro turns s hs
    refine ⟨length_le_left hs, ?_⟩
    exact ((hrun turns s hs).parent.goes_on path).imp_right fun h => ⟨.parent, h⟩
  · intro turns s hs hended
    have hs := hrun turns s hs
    obtain ⟨hthrew, hlookup⟩ := hs.parent.of_ended hended
    exact ⟨⟨e, hthrew⟩, hs.thread, hs.exitHandlerCalls, hlookup, hs.unwaited⟩
  · intro hfalse
    rw [hf] at hfalse
    cases hfalse

/-- What a failed `execve` leaves behind is its child, and that alone. -/
structure LeavesChild (path : String) (k : Kernel) (error : ℕ) (s : Attempt) : Prop where
  threw : s.parent = .threw (Attempt.failedToExecute path error)
  thread : s.thread = .notStarted
  exitHandlerCalls : s.exitHandlerCalls = 0
  descriptors : ∀ fd, (s.kernel.tables parent).lookup fd = (k.tables parent).lookup fd
  children : s.unwaited = [s.pid]

theorem failing_run {f : Faults} {error : ℕ} (hf : f.beforeExec = false)
    (herror : f.execve = some error) (hk : parent < k.processes) (path : String) :
    ∃ p, ∀ turns s, run (Attempt.step path f) (Attempt.start k f) turns = some s →
      Failing (k.tables parent) path p error s := by
  obtain ⟨p, hspares, hstart⟩ := failing_start hf hk path error
  refine ⟨p, fun turns s => ?_⟩
  exact run_invariant_of_step _ (fun s who t hs ht => hs.step hspares herror ht) hstart

theorem leavesChild_of_ended {f : Faults} {error : ℕ} (hf : f.beforeExec = false)
    (herror : f.execve = some error) (hk : parent < k.processes) {path : String}
    {turns : List Who} (hrun : run (Attempt.step path f) (Attempt.start k f) turns = some s)
    (hended : s.parent.ended) : LeavesChild path k error s := by
  obtain ⟨p, hfailing⟩ := failing_run hf herror hk path
  have hs := hfailing turns s hrun
  obtain ⟨hthrew, hlookup⟩ := hs.parent.of_ended hended
  exact ⟨hthrew, hs.thread, hs.exitHandlerCalls, hlookup, hs.unwaited⟩

/-- The call whose `execve` fails comes to an end like the others. -/
theorem exists_ended {f : Faults} {error : ℕ} (hf : f.beforeExec = false)
    (herror : f.execve = some error) (hk : parent < k.processes) (path : String) :
    ∃ turns s, run (Attempt.step path f) (Attempt.start k f) turns = some s ∧ s.parent.ended := by
  obtain ⟨p, hspares, hstart⟩ := failing_start hf hk path error
  have hreach : ∃ turns s, (∀ who ∈ turns, (fun _ => True) who) ∧
      run (Attempt.step path f) (Attempt.start k f) turns = some s ∧
        Failing (k.tables parent) path p error s ∧ s.parent.ended = true := by
    refine exists_run_of_measure Attempt.left ?_ hstart
    intro s hs hended
    obtain ⟨who, hwho⟩ := (hs.goes_on herror).resolve_left hended
    obtain ⟨t, ht⟩ := Option.isSome_iff_exists.mp hwho
    exact ⟨who, t, trivial, ht, hs.step hspares herror ht, left_step ht⟩
  obtain ⟨turns, s, -, hrun, -, hended⟩ := hreach
  exact ⟨turns, s, hrun, hended⟩

/-- A failed `spawn` leaves the parent as it was, unless it is `execve` that has failed: nobody
waits for that child. -/
theorem leavesAsItWas_iff (path : String) (k : Kernel) (hk : parent < k.processes) (f : Faults)
    (hf : f.beforeExec = true ∨ f.execve.isSome) :
    LeavesAsItWas path k f ↔ f.beforeExec = true := by
  refine ⟨?_, fun h => leavesAsItWas_of_beforeExec h path k⟩
  intro h
  by_contra hbefore
  rw [Bool.not_eq_true] at hbefore
  rw [hbefore] at hf
  obtain ⟨error, herror⟩ := Option.isSome_iff_exists.mp (hf.resolve_left (by decide))
  obtain ⟨turns, s, hrun, hended⟩ := exists_ended hbefore herror hk path
  have hchildren := (h.restored turns s hrun hended).children
  rw [(leavesChild_of_ended hbefore herror hk hrun hended).children] at hchildren
  cases hchildren

/-- The parent has its three standard descriptors. -/
def plainKernel : Kernel where
  tables := Function.update (fun _ => ∅) parent
    (((AList.insert 0 ⟨.other 0, false⟩ ∅).insert 1 ⟨.other 1, false⟩).insert 2
      ⟨.other 2, false⟩)
  processes := parent + 1
  pipes := 0
  known := by
    intro q
    by_cases h : q = parent
    · rw [h, Function.update_self]
      refine Known.insert (.insert (.insert known_empty ?_) ?_) ?_
      all_goals simp [OpenFile.pipe?]
    · rw [Function.update_of_ne h]
      exact known_empty

/-- Nothing fails but `execve`, which does not find the file. -/
def missingFile : Faults where
  toPipe := ⟨false, false, false⟩
  fromPipe := ⟨false, false, false⟩
  fromError := ⟨false, false, false⟩
  fork := false
  execve := some 2

theorem leavesAsItWas_iff_missing : LeavesAsItWas "zubazuba" plainKernel missingFile ↔
    missingFile.beforeExec = true :=
  leavesAsItWas_iff "zubazuba" plainKernel (by decide) missingFile (by decide)

/-- The process that could not execute the missing file is not waited for. -/
theorem not_leavesAsItWas_missing : ¬ LeavesAsItWas "zubazuba" plainKernel missingFile := by
  intro h
  have hk : parent < plainKernel.processes := by decide
  have hbefore : missingFile.beforeExec = false := rfl
  have herror : missingFile.execve = some 2 := rfl
  obtain ⟨turns, s, hrun, hended⟩ := exists_ended hbefore herror hk "zubazuba"
  have hleft := leavesChild_of_ended hbefore herror hk hrun hended
  have hchildren := (h.restored turns s hrun hended).children
  rw [hleft.children] at hchildren
  cases hchildren

end CohesionIpc.Spawn
