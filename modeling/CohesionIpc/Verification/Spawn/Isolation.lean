import CohesionIpc.Model.Spawn

/-! Who holds the pipes of a spawned server: the end that it reads from can be written to by
the parent alone, as long as no process is started while another session is alive. -/

namespace CohesionIpc.Spawn

open Transition

/-! ## The pipes of a session -/

def Pipes.fds (p : Pipes) : List ℕ :=
  [p.toChild.read, p.toChild.write, p.fromChild.read, p.fromChild.write, p.fromError.read,
    p.fromError.write]

/-- All different, and different from the standard ones. -/
structure Pipes.Apart (p : Pipes) : Prop where
  fds : p.fds.Nodup
  std : ∀ fd ∈ p.fds, 3 ≤ fd
  numbers : p.toChild.number ≠ p.fromChild.number

/-- The table of the parent with `calls` yet to be made. -/
structure ParentAt (t : DescriptorTable) (p : Pipes) (calls : List Call) : Prop where
  std : ∀ fd < 3, fd ∈ t
  suffix : calls <:+ parentCalls p
  toOnly : t.OnlyAt (.writeEnd p.toChild.number) p.toChild.write
  toHeld : ∃ d, t.lookup p.toChild.write = some d ∧ d.file = .writeEnd p.toChild.number
  fromOnly : t.OnlyAt (.writeEnd p.fromChild.number) p.fromChild.write
  fromGone : .close p.fromChild.write ∉ calls → ¬t.Refers (.writeEnd p.fromChild.number)

/-- The table of the child with `calls` yet to be made. -/
structure ChildAt (t : DescriptorTable) (p : Pipes) (calls : List Call) : Prop where
  suffix : calls <:+ childCalls p
  toOnly : t.OnlyAt (.writeEnd p.toChild.number) p.toChild.write
  toGone : .close p.toChild.write ∉ calls → ¬t.Refers (.writeEnd p.toChild.number)
  fromHeld : t.lookup p.fromChild.write = some ⟨.writeEnd p.fromChild.number, false⟩
  toRead : t.lookup p.toChild.read = some ⟨.readEnd p.toChild.number, false⟩
  stdin : .dup2 p.toChild.read 0 ∉ calls →
    t.lookup 0 = some ⟨.readEnd p.toChild.number, false⟩
  blocking : .exec ∈ calls →
    t.lookup p.fromError.write = some ⟨.writeEnd p.fromError.number, true⟩

/-- The descriptors of a session that has been constructed. -/
structure Session.Kept (k : Kernel) (x : Session) : Prop where
  apart : x.pipes.Apart
  child_ne : x.child ≠ parent
  toOnly : ∀ q, (k.tables q).Refers (.writeEnd x.pipes.toChild.number) →
    q = parent ∧ x.outbound = true
  toAt : (k.tables parent).OnlyAt (.writeEnd x.pipes.toChild.number) x.pipes.toChild.write
  toHeld : x.outbound = true → ∃ d, (k.tables parent).lookup x.pipes.toChild.write = some d ∧
    d.file = .writeEnd x.pipes.toChild.number
  fromOnly : ∀ q, (k.tables q).Refers (.writeEnd x.pipes.fromChild.number) →
    q = x.child ∧ x.running = true
  fromHeld : x.running = true → ∃ d, (k.tables x.child).lookup x.pipes.fromChild.write = some d ∧
    d.file = .writeEnd x.pipes.fromChild.number
  stdin : ∀ d, (k.tables x.child).lookup 0 = some d → d.file = .readEnd x.pipes.toChild.number

/-- A process is being started: its table and the parent's are as far as their calls, and no
other one has these pipes. -/
structure Starting (k : Kernel) (p : Pipes) (child : ℕ) (calls rest : List Call) : Prop where
  apart : p.Apart
  child_ne : child ≠ parent
  child_lt : child < k.processes
  atParent : ParentAt (k.tables parent) p calls
  atChild : ChildAt (k.tables child) p rest
  others : ∀ q, q ≠ parent → q ≠ child → ¬(k.tables q).Refers (.writeEnd p.toChild.number) ∧
    ¬(k.tables q).Refers (.writeEnd p.fromChild.number)
  awaited : .awaitEof ∉ calls → rest = []

/-- One session at a time. -/
structure Spawning.Inv (s : Spawning) : Prop where
  processes : parent < s.kernel.processes
  std : ∀ fd < 3, fd ∈ s.kernel.tables parent
  single : ∀ i x, s.sessions[i]? = some x → s.sessions = [x] ∧ i = 0
  outbound : (∀ i, s.activity ≠ .joining i) → ∀ x ∈ s.sessions, x.outbound = true
  kept : ∀ x ∈ s.sessions, x.Kept s.kernel
  starting : ∀ p child calls rest, s.activity = .starting p child calls rest →
    s.sessions = [] ∧ Starting s.kernel p child calls rest

/-- What a session can rely on: its child's input ends as soon as `_outbound` is reset, and
its own child alone keeps the reader waiting. -/
structure Session.Isolated (k : Kernel) (x : Session) : Prop where
  toHeld : ∀ q, (k.tables q).Refers (.writeEnd x.pipes.toChild.number) ↔
    q = parent ∧ x.outbound = true
  fromHeld : ∀ q, (k.tables q).Refers (.writeEnd x.pipes.fromChild.number) ↔
    q = x.child ∧ x.running = true
  stdin : ∀ d, (k.tables x.child).lookup 0 = some d → d.file = .readEnd x.pipes.toChild.number

/-- All sessions after a step are isolated, and a thread whose child has exited can come to
its end. -/
structure Isolates (s : Spawning) : Prop where
  sessions : ∀ x ∈ s.sessions, x.Isolated s.kernel
  finish : ∀ i x, s.sessions[i]? = some x → x.reading = true → x.running = false →
    (s.step (.finishReader i)).isSome

/-- A process is started only when no session is alive. -/
def Alone (s : Spawning) : SpawnCall → Prop
  | .construct .. => s.sessions = []
  | _ => True

/-! ## Calls -/

section Tables

variable {t : DescriptorTable} {p : Pipes} {fd : ℕ} {calls rest : List Call}

/-- What the child closes is not what it goes on to use. -/
theorem Pipes.Apart.child_ne (hp : p.Apart)
    (hfd : fd = p.toChild.write ∨ fd = p.fromChild.read ∨ fd = p.fromError.read) :
    p.fromChild.write ≠ fd ∧ p.toChild.read ≠ fd ∧ p.fromError.write ≠ fd ∧ 0 ≠ fd := by
  have hfds := hp.fds
  have hstd := hp.std
  simp only [Pipes.fds, List.nodup_cons, List.mem_cons, List.not_mem_nil, or_false, not_or,
    forall_eq_or_imp, forall_eq] at hfds hstd
  rcases hfd with rfl | rfl | rfl <;> grind

/-- Nor is what the parent closes. -/
theorem Pipes.Apart.parent_ne (hp : p.Apart) (hfd : fd = p.fromError.write ∨
      fd = p.fromError.read ∨ fd = p.fromChild.write ∨ fd = p.toChild.read) :
    p.toChild.write ≠ fd ∧ 3 ≤ fd := by
  have hfds := hp.fds
  have hstd := hp.std
  simp only [Pipes.fds, List.nodup_cons, List.mem_cons, List.not_mem_nil, or_false, not_or,
    forall_eq_or_imp, forall_eq] at hfds hstd
  rcases hfd with rfl | rfl | rfl | rfl <;> grind

theorem ChildAt.close (h : ChildAt t p (.close fd :: rest)) (hp : p.Apart)
    (hfd : fd = p.toChild.write ∨ fd = p.fromChild.read ∨ fd = p.fromError.read) :
    ChildAt (t.erase fd) p rest := by
  rcases hp.child_ne hfd with ⟨hwrite, hread, herror, hstdin⟩
  have hkeep : ∀ fd' d, fd' ≠ fd → t.lookup fd' = some d → (t.erase fd).lookup fd' = some d :=
    fun _ _ hne hd => DescriptorTable.lookup_close.mpr ⟨hne, hd⟩
  refine ⟨(List.suffix_cons _ _).trans h.suffix, h.toOnly.close fd, ?_, ?_, ?_, ?_, ?_⟩
  · intro hnot
    by_cases heq : fd = p.toChild.write
    · rw [heq]
      exact h.toOnly.gone
    · apply DescriptorTable.not_refers_close
      apply h.toGone
      rw [List.mem_cons, Call.close.injEq, not_or]
      exact ⟨fun hclose => heq hclose.symm, hnot⟩
  · exact hkeep _ _ hwrite h.fromHeld
  · exact hkeep _ _ hread h.toRead
  · intro hnot
    exact hkeep _ _ hstdin (h.stdin (by simpa using hnot))
  · intro hexec
    exact hkeep _ _ herror (h.blocking (List.mem_cons_of_mem _ hexec))

/-- The child's input comes from `to`. -/
theorem ChildAt.stdinCopied (h : ChildAt t p (.dup2 p.toChild.read 0 :: rest)) (hp : p.Apart) :
    ChildAt (t.dup2 p.toChild.read 0) p rest := by
  have hstd := hp.std
  simp only [Pipes.fds, List.mem_cons, List.not_mem_nil, or_false, forall_eq_or_imp,
    forall_eq] at hstd
  refine ⟨(List.suffix_cons _ _).trans h.suffix, h.toOnly.dup2 h.toRead (by simp) 0, ?_, ?_, ?_,
    ?_, ?_⟩
  · intro hnot
    exact DescriptorTable.not_refers_dup2 (h.toGone (by simpa using hnot)) h.toRead (by simp) 0
  · rw [DescriptorTable.lookup_dup2_of_ne (by omega)]
    exact h.fromHeld
  · rw [DescriptorTable.lookup_dup2_of_ne (by omega)]
    exact h.toRead
  · intro _
    exact DescriptorTable.lookup_dup2_self h.toRead (by omega)
  · intro hexec
    rw [DescriptorTable.lookup_dup2_of_ne (by omega)]
    exact h.blocking (List.mem_cons_of_mem _ hexec)

/-- The child's output goes to `from`. -/
theorem ChildAt.stdoutCopied (h : ChildAt t p (.dup2 p.fromChild.write 1 :: rest))
    (hp : p.Apart) : ChildAt (t.dup2 p.fromChild.write 1) p rest := by
  have hstd := hp.std
  simp only [Pipes.fds, List.mem_cons, List.not_mem_nil, or_false, forall_eq_or_imp,
    forall_eq] at hstd
  have hfile : OpenFile.writeEnd p.fromChild.number ≠ .writeEnd p.toChild.number := by
    rw [Ne, OpenFile.writeEnd.injEq]
    exact hp.numbers.symm
  refine ⟨(List.suffix_cons _ _).trans h.suffix, h.toOnly.dup2 h.fromHeld hfile 1, ?_, ?_, ?_,
    ?_, ?_⟩
  · intro hnot
    exact DescriptorTable.not_refers_dup2 (h.toGone (by simpa using hnot)) h.fromHeld hfile 1
  · rw [DescriptorTable.lookup_dup2_of_ne (by omega)]
    exact h.fromHeld
  · rw [DescriptorTable.lookup_dup2_of_ne (by omega)]
    exact h.toRead
  · intro hnot
    rw [DescriptorTable.lookup_dup2_of_ne (by omega)]
    exact h.stdin (by simpa using hnot)
  · intro hexec
    rw [DescriptorTable.lookup_dup2_of_ne (by omega)]
    exact h.blocking (List.mem_cons_of_mem _ hexec)

theorem ChildAt.exec (h : ChildAt t p [.exec]) : ChildAt t.exec p [] := by
  refine ⟨List.nil_suffix, h.toOnly.exec, ?_, ?_, ?_, ?_, ?_⟩
  · intro _
    exact DescriptorTable.not_refers_exec (h.toGone (by simp))
  · exact DescriptorTable.lookup_exec.mpr ⟨h.fromHeld, rfl⟩
  · exact DescriptorTable.lookup_exec.mpr ⟨h.toRead, rfl⟩
  · intro _
    exact DescriptorTable.lookup_exec.mpr ⟨h.stdin (by simp), rfl⟩
  · intro hexec
    cases hexec

theorem ParentAt.close (h : ParentAt t p (.close fd :: calls)) (hp : p.Apart)
    (hfd : fd = p.fromError.write ∨ fd = p.fromError.read ∨ fd = p.fromChild.write ∨
      fd = p.toChild.read) : ParentAt (t.erase fd) p calls := by
  rcases hp.parent_ne hfd with ⟨hwrite, hstd⟩
  refine ⟨?_, (List.suffix_cons _ _).trans h.suffix, h.toOnly.close fd, ?_, h.fromOnly.close fd,
    ?_⟩
  · intro fd' hlt
    exact AList.mem_erase.mpr ⟨by omega, h.std fd' hlt⟩
  · rcases h.toHeld with ⟨d, hd, hfile⟩
    exact ⟨d, DescriptorTable.lookup_close.mpr ⟨hwrite, hd⟩, hfile⟩
  · intro hnot
    by_cases heq : fd = p.fromChild.write
    · rw [heq]
      exact h.fromOnly.gone
    · apply DescriptorTable.not_refers_close
      apply h.fromGone
      rw [List.mem_cons, Call.close.injEq, not_or]
      exact ⟨fun hclose => heq hclose.symm, hnot⟩

theorem ParentAt.await (h : ParentAt t p (.awaitEof :: calls)) : ParentAt t p calls :=
  ⟨h.std, (List.suffix_cons _ _).trans h.suffix, h.toOnly, h.toHeld, h.fromOnly,
    fun hnot => h.fromGone (by simpa using hnot)⟩

end Tables

/-! ## The constructor -/

/-- What is there just before `fork`. -/
structure Opened (k : Kernel) (p : Pipes) (k' : Kernel) : Prop where
  apart : p.Apart
  toNew : k.pipes ≤ p.toChild.number
  fromNew : k.pipes ≤ p.fromChild.number
  processes : k'.processes = k.processes
  others : ∀ q, q ≠ parent → k'.tables q = k.tables q
  before : ∀ fd d, (k.tables parent).lookup fd = some d → (k'.tables parent).lookup fd = some d
  atParent : ParentAt (k'.tables parent) p (parentCalls p)
  atChild : ChildAt (k'.tables parent) p (childCalls p)

theorem anonymousPipe_spec {k k' : Kernel} {fds : ℕ × ℕ} {a : AnonymousPipe}
    (h : anonymousPipe k fds = some (a, k')) :
    a.number = k.pipes ∧ k.Piped parent a.read a.write k' := by
  rcases Option.map_eq_some_iff.mp h with ⟨k₁, hpipe, heq⟩
  cases heq
  exact ⟨rfl, Kernel.pipe_spec hpipe⟩

section Opening

variable {k k₁ k₂ k₃ : Kernel} {p : Pipes}
  (h₁ : k.Piped parent p.toChild.read p.toChild.write k₁)
  (h₂ : k₁.Piped parent p.fromChild.read p.fromChild.write k₂)
  (h₃ : k₂.Piped parent p.fromError.read p.fromError.write k₃)
include h₁ h₂ h₃

theorem apart_of_piped (hstd : ∀ fd < 3, fd ∈ k.tables parent)
    (hnumbers : p.toChild.number ≠ p.fromChild.number) : p.Apart := by
  have hge : ∀ fd, fd ∉ k.tables parent → 3 ≤ fd := by
    intro fd hfd
    by_contra hlt
    exact hfd (hstd fd (by omega))
  have hge₁ : ∀ fd, fd ∉ k₁.tables parent → 3 ≤ fd :=
    fun fd hfd => hge fd fun hmem => hfd (h₁.mem hmem)
  have hge₂ : ∀ fd, fd ∉ k₂.tables parent → 3 ≤ fd :=
    fun fd hfd => hge₁ fd fun hmem => hfd (h₂.mem hmem)
  refine ⟨?_, ?_, hnumbers⟩
  · have hr₂ := h₂.kept _ _ h₁.read
    have hw₂ := h₂.kept _ _ h₁.write
    simp only [Pipes.fds, List.nodup_cons, List.mem_cons, List.not_mem_nil, or_false, not_or,
      not_false_eq_true, and_true, List.nodup_nil]
    exact ⟨⟨h₁.ne, DescriptorTable.ne_of_lookup h₁.read h₂.readFree,
        DescriptorTable.ne_of_lookup h₁.read h₂.writeFree,
        DescriptorTable.ne_of_lookup hr₂ h₃.readFree,
        DescriptorTable.ne_of_lookup hr₂ h₃.writeFree⟩,
      ⟨DescriptorTable.ne_of_lookup h₁.write h₂.readFree,
        DescriptorTable.ne_of_lookup h₁.write h₂.writeFree,
        DescriptorTable.ne_of_lookup hw₂ h₃.readFree,
        DescriptorTable.ne_of_lookup hw₂ h₃.writeFree⟩,
      ⟨h₂.ne, DescriptorTable.ne_of_lookup h₂.read h₃.readFree,
        DescriptorTable.ne_of_lookup h₂.read h₃.writeFree⟩,
      ⟨DescriptorTable.ne_of_lookup h₂.write h₃.readFree,
        DescriptorTable.ne_of_lookup h₂.write h₃.writeFree⟩, h₃.ne⟩
  · simp only [Pipes.fds, List.mem_cons, List.not_mem_nil, or_false, forall_eq_or_imp, forall_eq]
    exact ⟨hge _ h₁.readFree, hge _ h₁.writeFree, hge₁ _ h₂.readFree, hge₁ _ h₂.writeFree,
      hge₂ _ h₃.readFree, hge₂ _ h₃.writeFree⟩

end Opening

theorem openPipes_spec {k k' : Kernel} {into back error : ℕ × ℕ} {p : Pipes}
    (hstd : ∀ fd < 3, fd ∈ k.tables parent)
    (h : openPipes k into back error = some (p, k')) : Opened k p k' := by
  rcases Option.bind_eq_some_iff.mp h with ⟨⟨to₁, k₁⟩, hto, h⟩
  rcases Option.bind_eq_some_iff.mp h with ⟨⟨from₂, k₂⟩, hfrom, h⟩
  rcases Option.map_eq_some_iff.mp h with ⟨⟨error₃, k₃⟩, herror, heq⟩
  cases heq
  rcases anonymousPipe_spec hto with ⟨hn₁, h₁⟩
  rcases anonymousPipe_spec hfrom with ⟨hn₂, h₂⟩
  rcases anonymousPipe_spec herror with ⟨hn₃, h₃⟩
  have hp₁ := h₁.pipes
  have hp₂ := h₂.pipes
  have hapart : (Pipes.mk to₁ from₂ error₃).Apart :=
    apart_of_piped h₁ h₂ h₃ hstd (by simp only; omega)
  have hkeep : ∀ fd d, (k₂.tables parent).lookup fd = some d →
      ((k₃.tables parent).setCloseOnExec error₃.write).lookup fd = some d := by
    intro fd d hd
    rw [DescriptorTable.lookup_setCloseOnExec_of_ne
      (DescriptorTable.ne_of_lookup hd h₃.writeFree)]
    exact h₃.kept fd d hd
  have hread := hkeep _ _ (h₂.kept _ _ h₁.read)
  have hwrite := hkeep _ _ (h₂.kept _ _ h₁.write)
  have hback := hkeep _ _ h₂.write
  have herror := DescriptorTable.lookup_setCloseOnExec_self h₃.write
  have hto := (h₃.onlyAt_old (by omega) (h₂.onlyAt_old (by omega) h₁.onlyAt_new)).setCloseOnExec
    error₃.write
  have hfrom := (h₃.onlyAt_old (by omega) h₂.onlyAt_new).setCloseOnExec error₃.write
  have hmem : ∀ fd < 3, fd ∈ (k₃.tables parent).setCloseOnExec error₃.write := by
    intro fd hlt
    rcases Option.isSome_iff_exists.mp (AList.lookup_isSome.mpr (h₂.mem (h₁.mem (hstd fd hlt))))
      with ⟨d, hd⟩
    exact AList.lookup_isSome.mp (Option.isSome_iff_exists.mpr ⟨d, hkeep fd d hd⟩)
  rw [← hn₁] at hread hwrite hto
  rw [← hn₂] at hback hfrom
  rw [← hn₃] at herror
  refine ⟨hapart, hn₁.ge, by simp only; omega, ?_, ?_, ?_, ?_, ?_⟩
  · exact h₃.processes.trans (h₂.processes.trans h₁.processes)
  · intro q hq
    rw [Kernel.setCloseOnExec, Kernel.tables_modify_of_ne hq, h₃.others q hq, h₂.others q hq,
      h₁.others q hq]
  · intro fd d hd
    rw [Kernel.setCloseOnExec, Kernel.tables_modify_self]
    exact hkeep fd d (h₂.kept fd d (h₁.kept fd d hd))
  · rw [Kernel.setCloseOnExec, Kernel.tables_modify_self]
    exact ⟨hmem, List.suffix_rfl, hto, ⟨_, hwrite, rfl⟩, hfrom,
      fun hnot => absurd (by simp [parentCalls]) hnot⟩
  · rw [Kernel.setCloseOnExec, Kernel.tables_modify_self]
    exact ⟨List.suffix_rfl, hto, fun hnot => absurd (by simp [childCalls]) hnot, hback, hread,
      fun hnot => absurd (by simp [childCalls]) hnot, fun _ => herror⟩

theorem Opened.not_refers {k k' : Kernel} {p : Pipes} {q pipe : ℕ} (h : Opened k p k')
    (hq : q ≠ parent) (hpipe : k.pipes ≤ pipe) : ¬(k'.tables q).Refers (.writeEnd pipe) := by
  rw [DescriptorTable.refers_iff]
  rintro ⟨fd, d, hd, hf⟩
  rw [h.others q hq] at hd
  exact k.ne_of_le hpipe hd (by rw [hf]; rfl)

theorem Opened.starting {k k' : Kernel} {p : Pipes} (h : Opened k p k')
    (hprocesses : parent < k.processes) :
    Starting (k'.fork parent) p k'.processes (parentCalls p) (childCalls p) := by
  have hne : parent ≠ k'.processes := by
    have hsame := h.processes
    omega
  refine ⟨h.apart, hne.symm, Nat.lt_succ_self _, ?_, ?_, ?_, ?_⟩
  · rw [Kernel.tables_fork_of_ne hne]
    exact h.atParent
  · rw [Kernel.tables_fork_new]
    exact h.atChild
  · intro q hparent hchild
    rw [Kernel.tables_fork_of_ne hchild]
    exact ⟨h.not_refers hparent h.toNew, h.not_refers hparent h.fromNew⟩
  · exact fun hnot => absurd (by simp [parentCalls]) hnot

/-! ## The calls of both processes, in any order -/

namespace Starting

variable {k k' : Kernel} {p : Pipes} {child fd : ℕ} {call : Call} {calls rest : List Call}

/-- As long as the child has calls to make, `execve` is one of them. -/
theorem exec_mem (hsuffix : rest <:+ childCalls p) (hne : rest ≠ []) : .exec ∈ rest := by
  simp only [childCalls, List.suffix_cons_iff, List.suffix_nil] at hsuffix
  rcases hsuffix with rfl | rfl | rfl | rfl | rfl | rfl | rfl
  all_goals first | exact absurd rfl hne | simp

theorem parentCloses (h : Starting k p child (.close fd :: calls) rest)
    (hfd : fd = p.fromError.write ∨ fd = p.fromError.read ∨ fd = p.fromChild.write ∨
      fd = p.toChild.read) : Starting (k.close parent fd) p child calls rest := by
  refine ⟨h.apart, h.child_ne, h.child_lt, ?_, ?_, ?_, ?_⟩
  · rw [Kernel.close, Kernel.tables_modify_self]
    exact h.atParent.close h.apart hfd
  · rw [Kernel.close, Kernel.tables_modify_of_ne h.child_ne]
    exact h.atChild
  · intro q hparent hchild
    rw [Kernel.close, Kernel.tables_modify_of_ne hparent]
    exact h.others q hparent hchild
  · exact fun hnot => h.awaited (by simpa using hnot)

/-- `from_error` ends when the child's copy of its write end is closed, by `execve` alone. -/
theorem parentAwaits (h : Starting k p child (.awaitEof :: calls) rest)
    (heof : k.Eof p.fromError.number) : Starting k p child calls rest := by
  refine ⟨h.apart, h.child_ne, h.child_lt, h.atParent.await, h.atChild, h.others, ?_⟩
  intro _
  by_contra hne
  have hexec := h.atChild.blocking (exec_mem h.atChild.suffix hne)
  exact heof child h.child_lt (DescriptorTable.refers_iff.mpr ⟨_, _, hexec, rfl⟩)

theorem parent_step (h : Starting k p child (call :: calls) rest)
    (hrun : call.run p parent k = some k') : Starting k' p child calls rest := by
  have hmem : call ∈ parentCalls p := h.atParent.suffix.subset List.mem_cons_self
  simp only [parentCalls, List.mem_cons, List.not_mem_nil, or_false] at hmem
  rcases hmem with rfl | rfl | rfl | rfl | rfl
  · cases hrun
    exact h.parentCloses (.inl rfl)
  · simp only [Call.run] at hrun
    split at hrun
    · rename_i heof
      cases hrun
      exact h.parentAwaits heof
    · cases hrun
  · cases hrun
    exact h.parentCloses (.inr (.inl rfl))
  · cases hrun
    exact h.parentCloses (.inr (.inr (.inl rfl)))
  · cases hrun
    exact h.parentCloses (.inr (.inr (.inr rfl)))

/-- The child changes its own table only. -/
theorem childChanges (h : Starting k p child calls (call :: rest))
    {change : DescriptorTable → DescriptorTable}
    {hchange : ∀ t, t.Known k.pipes → (change t).Known k.pipes}
    (hat : ChildAt (change (k.tables child)) p rest) :
    Starting (k.modify child change hchange) p child calls rest := by
  refine ⟨h.apart, h.child_ne, h.child_lt, ?_, ?_, ?_, ?_⟩
  · rw [Kernel.tables_modify_of_ne h.child_ne.symm]
    exact h.atParent
  · rw [Kernel.tables_modify_self]
    exact hat
  · intro q hparent hchild
    rw [Kernel.tables_modify_of_ne hchild]
    exact h.others q hparent hchild
  · intro hnot
    cases h.awaited hnot

theorem child_step (h : Starting k p child calls (call :: rest))
    (hrun : call.run p child k = some k') : Starting k' p child calls rest := by
  have hat := h.atChild
  have hsuffix := hat.suffix
  simp only [childCalls, List.suffix_cons_iff, List.suffix_nil, List.cons.injEq,
    reduceCtorEq, or_false] at hsuffix
  rcases hsuffix with ⟨rfl, -⟩ | ⟨rfl, -⟩ | ⟨rfl, -⟩ | ⟨rfl, -⟩ | ⟨rfl, -⟩ | ⟨rfl, rfl⟩
  · cases hrun
    exact h.childChanges (hat.close h.apart (.inl rfl))
  · cases hrun
    exact h.childChanges (hat.close h.apart (.inr (.inl rfl)))
  · cases hrun
    exact h.childChanges (hat.close h.apart (.inr (.inr rfl)))
  · cases hrun
    exact h.childChanges (hat.stdinCopied h.apart)
  · cases hrun
    exact h.childChanges (hat.stdoutCopied h.apart)
  · cases hrun
    exact h.childChanges hat.exec

/-- The session that has been constructed. -/
theorem kept (h : Starting k p child [] rest) :
    Session.Kept k ⟨p, child, true, true, true⟩ := by
  have hrest : rest = [] := h.awaited List.not_mem_nil
  rw [hrest] at h
  refine ⟨h.apart, h.child_ne, ?_, h.atParent.toOnly, fun _ => h.atParent.toHeld, ?_,
    fun _ => ⟨_, h.atChild.fromHeld, rfl⟩, ?_⟩
  · intro q hq
    refine ⟨?_, rfl⟩
    by_contra hparent
    by_cases hchild : q = child
    · rw [hchild] at hq
      exact h.atChild.toGone List.not_mem_nil hq
    · exact (h.others q hparent hchild).1 hq
  · intro q hq
    refine ⟨?_, rfl⟩
    by_contra hchild
    by_cases hparent : q = parent
    · rw [hparent] at hq
      exact h.atParent.fromGone List.not_mem_nil hq
    · exact (h.others q hparent hchild).2 hq
  · intro d hd
    rw [h.atChild.stdin List.not_mem_nil, Option.some.injEq] at hd
    rw [← hd]

end Starting

/-! ## Constructed sessions -/

namespace Session.Kept

variable {k : Kernel} {x : Session} {fd : ℕ}

/-- Once `_outbound` is reset nobody can write to the child. -/
theorem reset (h : x.Kept k) :
    ({ x with outbound := false } : Session).Kept (k.close parent x.pipes.toChild.write) := by
  refine ⟨h.apart, h.child_ne, ?_, ?_, (fun houtbound => by cases houtbound),
    fun q hq => h.fromOnly q (Kernel.refers_of_close hq), ?_, ?_⟩
  · intro q hq
    have hparent := (h.toOnly q (Kernel.refers_of_close hq)).1
    rw [hparent, Kernel.close, Kernel.tables_modify_self] at hq
    exact absurd hq h.toAt.gone
  · rw [Kernel.close, Kernel.tables_modify_self]
    exact h.toAt.close _
  · rw [Kernel.close, Kernel.tables_modify_of_ne h.child_ne]
    exact h.fromHeld
  · rw [Kernel.close, Kernel.tables_modify_of_ne h.child_ne]
    exact h.stdin

theorem readerFinishes (h : x.Kept k) :
    ({ x with reading := false } : Session).Kept (k.close parent x.pipes.fromChild.read) := by
  refine ⟨h.apart, h.child_ne, fun q hq => h.toOnly q (Kernel.refers_of_close hq), ?_, ?_,
    fun q hq => h.fromOnly q (Kernel.refers_of_close hq), ?_, ?_⟩
  · rw [Kernel.close, Kernel.tables_modify_self]
    exact h.toAt.close _
  · intro houtbound
    rcases h.toHeld houtbound with ⟨d, hd, hfile⟩
    rw [Kernel.close, Kernel.tables_modify_self]
    have hfds := h.apart.fds
    simp only [Pipes.fds, List.nodup_cons, List.mem_cons, not_or] at hfds
    exact ⟨d, DescriptorTable.lookup_close.mpr ⟨hfds.2.1.1, hd⟩, hfile⟩
  · rw [Kernel.close, Kernel.tables_modify_of_ne h.child_ne]
    exact h.fromHeld
  · rw [Kernel.close, Kernel.tables_modify_of_ne h.child_ne]
    exact h.stdin

theorem childCloses (h : x.Kept k) (hfd : fd < 3) : x.Kept (k.close x.child fd) := by
  refine ⟨h.apart, h.child_ne, fun q hq => h.toOnly q (Kernel.refers_of_close hq), ?_, ?_,
    fun q hq => h.fromOnly q (Kernel.refers_of_close hq), ?_, ?_⟩
  · rw [Kernel.close, Kernel.tables_modify_of_ne h.child_ne.symm]
    exact h.toAt
  · rw [Kernel.close, Kernel.tables_modify_of_ne h.child_ne.symm]
    exact h.toHeld
  · intro hrunning
    rcases h.fromHeld hrunning with ⟨d, hd, hfile⟩
    rw [Kernel.close, Kernel.tables_modify_self]
    have hstd := h.apart.std x.pipes.fromChild.write (by simp [Pipes.fds])
    exact ⟨d, DescriptorTable.lookup_close.mpr ⟨by omega, hd⟩, hfile⟩
  · intro d hd
    rw [Kernel.close, Kernel.tables_modify_self] at hd
    exact h.stdin d (DescriptorTable.lookup_close.mp hd).2

theorem childExits (h : x.Kept k) :
    ({ x with running := false } : Session).Kept (k.exit x.child) := by
  have hempty : ∀ f, ¬DescriptorTable.Refers ∅ f := by
    rintro f ⟨e, he, -⟩
    cases he
  have hrefers : ∀ q f, ((k.exit x.child).tables q).Refers f →
      q ≠ x.child ∧ (k.tables q).Refers f := by
    intro q f hq
    by_cases hchild : q = x.child
    · rw [hchild, Kernel.exit, Kernel.tables_modify_self] at hq
      exact absurd hq (hempty f)
    · rw [Kernel.exit, Kernel.tables_modify_of_ne hchild] at hq
      exact ⟨hchild, hq⟩
  refine ⟨h.apart, h.child_ne, fun q hq => h.toOnly q (hrefers q _ hq).2, ?_, ?_, ?_,
    (fun hrunning => by cases hrunning), ?_⟩
  · rw [Kernel.exit, Kernel.tables_modify_of_ne h.child_ne.symm]
    exact h.toAt
  · rw [Kernel.exit, Kernel.tables_modify_of_ne h.child_ne.symm]
    exact h.toHeld
  · intro q hq
    rcases hrefers q _ hq with ⟨hchild, hold⟩
    exact absurd (h.fromOnly q hold).1 hchild
  · intro d hd
    rw [Kernel.exit, Kernel.tables_modify_self, AList.lookup_empty] at hd
    cases hd

theorem isolated (h : x.Kept k) : x.Isolated k := by
  refine ⟨?_, ?_, h.stdin⟩
  · intro q
    refine ⟨h.toOnly q, ?_⟩
    rintro ⟨rfl, houtbound⟩
    rcases h.toHeld houtbound with ⟨d, hd, hfile⟩
    exact DescriptorTable.refers_iff.mpr ⟨_, d, hd, hfile⟩
  · intro q
    refine ⟨h.fromOnly q, ?_⟩
    rintro ⟨rfl, hrunning⟩
    rcases h.fromHeld hrunning with ⟨d, hd, hfile⟩
    exact DescriptorTable.refers_iff.mpr ⟨_, d, hd, hfile⟩

end Session.Kept

/-! ## Runs -/

namespace Spawning

variable {s t : Spawning} {e : SpawnCall}

theorem inv_init (given : Standard) : (init given).Inv := by
  refine ⟨Nat.lt_succ_self _, ?_, (fun i x hx => by cases hx), (fun _ x hx => by cases hx),
    (fun x hx => by cases hx), fun p child calls rest hactivity => by cases hactivity⟩
  have htable : (init given).kernel.tables parent = given.table := by
    simp only [init, Function.update_self]
  rw [htable]
  exact given.std

theorem inv_one {k : Kernel} {x : Session} {activity : Activity} (hprocesses : parent < k.processes)
    (hstd : ∀ fd < 3, fd ∈ k.tables parent)
    (houtbound : (∀ i, activity ≠ .joining i) → x.outbound = true) (hkept : x.Kept k)
    (hstarting : ∀ p child calls rest, activity ≠ .starting p child calls rest) :
    Inv ⟨k, [x], activity⟩ := by
  refine ⟨hprocesses, hstd, ?_, ?_, ?_, ?_⟩
  · intro i y hy
    rcases List.getElem?_eq_some_iff.mp hy with ⟨hi, rfl⟩
    have hzero : i = 0 := by simpa using hi
    subst hzero
    exact ⟨rfl, rfl⟩
  · intro hjoining y hy
    rw [List.mem_singleton.mp hy]
    exact houtbound hjoining
  · intro y hy
    rw [List.mem_singleton.mp hy]
    exact hkept
  · exact fun p child calls rest hactivity => absurd hactivity (hstarting p child calls rest)

theorem Inv.construct (hI : s.Inv) (hempty : s.sessions = []) {k : Kernel} {p : Pipes}
    (h : Opened s.kernel p k) :
    Inv { s with
      kernel := k.fork parent
      activity := .starting p k.processes (parentCalls p) (childCalls p) } := by
  have hstarting := h.starting hI.processes
  refine ⟨Nat.lt_of_le_of_lt (Nat.zero_le _) hstarting.child_lt, hstarting.atParent.std, hI.single,
    ?_, ?_, ?_⟩
  · intro _ x hx
    rw [hempty] at hx
    cases hx
  · intro x hx
    rw [hempty] at hx
    cases hx
  · intro p' child calls rest hactivity
    cases hactivity
    exact ⟨hempty, hstarting⟩

theorem Inv.go (hI : s.Inv) (hempty : s.sessions = []) {k : Kernel} {p : Pipes} {child : ℕ}
    {calls rest : List Call} (h : Starting k p child calls rest) :
    Inv { s with kernel := k, activity := .starting p child calls rest } := by
  refine ⟨Nat.lt_of_le_of_lt (Nat.zero_le _) h.child_lt, h.atParent.std, hI.single, ?_, ?_, ?_⟩
  · intro _ x hx
    rw [hempty] at hx
    cases hx
  · intro x hx
    rw [hempty] at hx
    cases hx
  · intro p' child' calls' rest' hactivity
    cases hactivity
    exact ⟨hempty, h⟩

/-- The session at `i` is the only one, and no process is being started. -/
theorem Inv.only (hI : s.Inv) {i : ℕ} {x : Session} (hx : s.sessions[i]? = some x) :
    s.sessions = [x] ∧ i = 0 ∧ x.Kept s.kernel ∧
      ∀ p child calls rest, s.activity ≠ .starting p child calls rest := by
  rcases hI.single i x hx with ⟨hsessions, hi⟩
  refine ⟨hsessions, hi, hI.kept x (by rw [hsessions]; exact List.mem_singleton_self x), ?_⟩
  intro p child calls rest hactivity
  have hempty := (hI.starting p child calls rest hactivity).1
  rw [hsessions] at hempty
  cases hempty

/-- Something happens to the only session. -/
theorem Inv.change (hI : s.Inv) {i : ℕ} {x x' : Session} (hx : s.sessions[i]? = some x)
    {k : Kernel} (hprocesses : k.processes = s.kernel.processes)
    (hstd : ∀ fd < 3, fd ∈ k.tables parent) (hsame : x'.outbound = x.outbound)
    (hkept : x'.Kept k) :
    Inv { s with kernel := k, sessions := s.sessions.set i x' } := by
  rcases hI.only hx with ⟨hsessions, rfl, -, hstarting⟩
  have houtbound := hI.outbound
  rw [hsessions] at houtbound ⊢
  refine inv_one (by rw [hprocesses]; exact hI.processes) hstd ?_ hkept hstarting
  intro hjoining
  rw [hsame]
  exact houtbound hjoining x (List.mem_singleton_self x)

/-- The child's calls leave the parent's table alone. -/
theorem Inv.std_child (hI : s.Inv) {x : Session} (hkept : x.Kept s.kernel)
    (change : DescriptorTable → DescriptorTable)
    (hchange : ∀ t, t.Known s.kernel.pipes → (change t).Known s.kernel.pipes) :
    ∀ fd < 3, fd ∈ (s.kernel.modify x.child change hchange).tables parent := by
  rw [Kernel.tables_modify_of_ne hkept.child_ne.symm]
  exact hI.std

theorem Inv.std_close (hI : s.Inv) {fd : ℕ} (hfd : 3 ≤ fd) :
    ∀ fd' < 3, fd' ∈ (s.kernel.close parent fd).tables parent := by
  intro fd' hlt
  rw [Kernel.close, Kernel.tables_modify_self]
  exact AList.mem_erase.mpr ⟨by omega, hI.std fd' hlt⟩

theorem Inv.step (hI : s.Inv) (hP : Alone s e) (hs : s.step e = some t) : t.Inv := by
  cases e with
  | construct into back error =>
      simp only [Spawning.step] at hs
      split at hs
      · rcases Option.map_eq_some_iff.mp hs with ⟨⟨p, k⟩, hopen, rfl⟩
        exact hI.construct hP (openPipes_spec hI.std hopen)
      · cases hs
  | parent =>
      simp only [Spawning.step] at hs
      split at hs
      · rename_i p child call calls rest hactivity
        rcases Option.map_eq_some_iff.mp hs with ⟨k, hrun, rfl⟩
        rcases hI.starting _ _ _ _ hactivity with ⟨hempty, hstarting⟩
        exact hI.go hempty (hstarting.parent_step hrun)
      · rename_i p child rest hactivity
        cases hs
        rcases hI.starting _ _ _ _ hactivity with ⟨hempty, hstarting⟩
        rw [hempty]
        exact inv_one hI.processes hI.std (fun _ => rfl) hstarting.kept (by simp)
      · cases hs
  | child =>
      simp only [Spawning.step] at hs
      split at hs
      · rename_i p child calls call rest hactivity
        rcases Option.map_eq_some_iff.mp hs with ⟨k, hrun, rfl⟩
        rcases hI.starting _ _ _ _ hactivity with ⟨hempty, hstarting⟩
        exact hI.go hempty (hstarting.child_step hrun)
      · cases hs
  | destroy i =>
      simp only [Spawning.step] at hs
      split at hs
      · rename_i x hactivity hx
        cases hs
        rcases hI.only hx with ⟨hsessions, rfl, hkept, -⟩
        rw [hsessions]
        refine inv_one hI.processes (hI.std_close ?_) (fun hjoining => absurd rfl (hjoining 0))
          hkept.reset (by simp)
        exact hkept.apart.std _ (by simp [Pipes.fds])
      · cases hs
  | join =>
      simp only [Spawning.step] at hs
      split at hs
      · split at hs
        · rename_i x hx
          split at hs
          · cases hs
          · cases hs
            rcases hI.only hx with ⟨hsessions, rfl, -, -⟩
            rw [hsessions]
            exact ⟨hI.processes, hI.std, (fun i y hy => by cases hy), (fun _ y hy => by cases hy),
              (fun y hy => by cases hy), fun p child calls rest h => by cases h⟩
        · cases hs
      · cases hs
  | finishReader i =>
      simp only [Spawning.step] at hs
      split at hs
      · rename_i x hx
        split at hs
        · cases hs
          have hkept := (hI.only hx).2.2.1
          exact hI.change hx rfl (hI.std_close (hkept.apart.std _ (by simp [Pipes.fds]))) rfl
            hkept.readerFinishes
        · cases hs
      · cases hs
  | childCloses i fd =>
      simp only [Spawning.step] at hs
      split at hs
      · rename_i x hx
        split at hs
        · rename_i hclose
          cases hs
          rcases hI.only hx with ⟨hsessions, rfl, hkept, -⟩
          have hnext := hI.change (k := s.kernel.close x.child fd) hx rfl (hI.std_child hkept _ _)
            rfl (hkept.childCloses hclose.2)
          rw [hsessions] at hnext
          rwa [hsessions]
        · cases hs
      · cases hs
  | childExits i =>
      simp only [Spawning.step] at hs
      split at hs
      · rename_i x hx
        split at hs
        · cases hs
          have hkept := (hI.only hx).2.2.1
          exact hI.change hx rfl (hI.std_child hkept _ _) rfl hkept.childExits
        · cases hs
      · cases hs

theorem Inv.isolates (hI : s.Inv) : Isolates s := by
  refine ⟨fun x hx => (hI.kept x hx).isolated, ?_⟩
  intro i x hx hreading hrunning
  have hkept := (hI.only hx).2.2.1
  have heof : s.kernel.Eof x.pipes.fromChild.number := by
    intro q _ hq
    have hrunning' := (hkept.fromOnly q hq).2
    rw [hrunning] at hrunning'
    cases hrunning'
  simp only [Spawning.step, hx, hreading, heof, hrunning, Bool.false_eq_true, not_false_eq_true,
    and_self, if_true, Option.isSome_some]

/-- A process that is started beside a session inherits what the session writes to. -/
theorem Inv.alone (hI : s.Inv) (hs : s.step e = some t) (hT : Isolates t) : Alone s e := by
  cases e with
  | construct into back error =>
      simp only [Spawning.step] at hs
      split at hs
      · rename_i hactivity
        rcases Option.map_eq_some_iff.mp hs with ⟨⟨p, k⟩, hopen, rfl⟩
        have hopened := openPipes_spec hI.std hopen
        rw [Alone, List.eq_nil_iff_forall_not_mem]
        intro x hx
        have hparent := hI.processes
        rw [← hopened.processes] at hparent
        rcases (hI.kept x hx).toHeld (hI.outbound (by simp [hactivity]) x hx) with ⟨d, hd, hfile⟩
        have hcopy : ((k.fork parent).tables k.processes).Refers
            (.writeEnd x.pipes.toChild.number) := by
          rw [Kernel.tables_fork_new]
          exact DescriptorTable.refers_iff.mpr ⟨_, d, hopened.before _ d hd, hfile⟩
        have hholder := (((hT.sessions x hx).toHeld k.processes).mp hcopy).1
        omega
      · cases hs
  | _ => trivial

end Spawning

/-- Of all runs exactly those isolate the sessions from each other, in every state, in which
a session is constructed only when no other is alive. -/
theorem sessions_isolated_iff (given : Standard) (calls : List SpawnCall)
    (hrun : (run Spawning.step (.init given) calls).isSome) :
    Through Spawning.step (fun _ _ t => Isolates t) (.init given) calls ↔
      Along Spawning.step Alone (.init given) calls :=
  through_iff_along_of_step Spawning.Inv
    (fun _ _ _ hI hP hs => ⟨hI.step hP hs, (hI.step hP hs).isolates⟩)
    (fun _ _ _ hI hs hT => hI.alone hs hT) (Spawning.inv_init given) hrun

/-- A process with its standard descriptors only. -/
def Standard.plain : Standard where
  table := ((AList.insert 0 ⟨.other 0, false⟩ ∅).insert 1 ⟨.other 1, false⟩).insert 2
    ⟨.other 2, false⟩
  std := by decide
  known := by
    refine DescriptorTable.Known.insert (.insert (.insert DescriptorTable.known_empty ?_) ?_) ?_
    all_goals simp [OpenFile.pipe?]

/-- A whole constructor, with the child's calls before the parent's. -/
def constructing (toChild fromChild fromError : ℕ × ℕ) : List SpawnCall :=
  .construct toChild fromChild fromError :: (List.replicate 6 .child ++ List.replicate 6 .parent)

/-- One session after the other. -/
def successive : List SpawnCall :=
  constructing (3, 4) (5, 6) (7, 8) ++ [.destroy 0, .childExits 0, .finishReader 0, .join] ++
    constructing (3, 4) (5, 6) (7, 8)

theorem sessions_isolated_iff_successive :
    Through Spawning.step (fun _ _ t => Isolates t) (.init .plain) successive ↔
      Along Spawning.step Alone (.init .plain) successive :=
  sessions_isolated_iff .plain successive (by decide)

/-- Two sessions at once, and the destructor of the first: the child of the second still holds
the end that the first one's input comes from. -/
def overlapping : List SpawnCall :=
  constructing (3, 4) (5, 6) (7, 8) ++ constructing (3, 6) (7, 8) (9, 10) ++ [.destroy 0]

theorem later_child_holds_input :
    (∃ s, run Spawning.step (.init .plain) overlapping = some s ∧ s.activity = .joining 0 ∧
      (s.kernel.tables 2).Refers (.writeEnd 0)) ∧
    ¬Through Spawning.step (fun _ _ t => Isolates t) (.init .plain) overlapping := by
  have hrun : ((run Spawning.step (.init .plain) overlapping).map fun s =>
      (s.activity, s.sessions.map fun x => (x.pipes.toChild.number, x.outbound),
        decide ((s.kernel.tables 2).Refers (.writeEnd 0)))) =
      some (.joining 0, [(0, false), (3, true)], true) := by decide
  rcases Option.map_eq_some_iff.mp hrun with ⟨s, hs, heq⟩
  simp only [Prod.mk.injEq, decide_eq_true_eq] at heq
  rcases heq with ⟨hactivity, hsessions, hrefers⟩
  refine ⟨⟨s, hs, hactivity, hrefers⟩, ?_⟩
  intro hthrough
  rcases through_concat hthrough hs with ⟨m, hT⟩
  have hmem : (0, false) ∈ s.sessions.map fun x => (x.pipes.toChild.number, x.outbound) := by
    rw [hsessions]
    exact List.mem_cons_self
  rcases List.mem_map.mp hmem with ⟨x, hx, heq⟩
  simp only [Prod.mk.injEq] at heq
  have hholds := (hT.sessions x hx).toHeld 2
  rw [heq.1, heq.2] at hholds
  cases (hholds.mp hrefers).2

end CohesionIpc.Spawn
