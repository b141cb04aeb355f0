import Mathlib.Data.List.AList
import Mathlib.Logic.Function.Basic

/-! Processes with tables of descriptors, and the ends of pipes that descriptors refer to. -/

namespace CohesionIpc

/-- What a descriptor refers to: an end of a pipe or something else. -/
inductive OpenFile
  | other (n : ℕ)
  | readEnd (pipe : ℕ)
  | writeEnd (pipe : ℕ)
  deriving DecidableEq

def OpenFile.pipe? : OpenFile → Option ℕ
  | .other _ => none
  | .readEnd pipe | .writeEnd pipe => some pipe

structure Descriptor where
  file : OpenFile
  closeOnExec : Bool
  deriving DecidableEq

/-- The open descriptors of a process by their numbers. -/
abbrev DescriptorTable := AList fun _ : ℕ => Descriptor

namespace DescriptorTable

variable {t : DescriptorTable} {fd fd' target n pipe r w : ℕ} {d : Descriptor} {f : OpenFile}

/-- The ends of a new pipe. -/
def addPipe (t : DescriptorTable) (pipe r w : ℕ) : DescriptorTable :=
  (t.insert r ⟨.readEnd pipe, false⟩).insert w ⟨.writeEnd pipe, false⟩

/-- `dup2`, which fails for a descriptor that is not open and then changes nothing. -/
def dup2 (t : DescriptorTable) (fd target : ℕ) : DescriptorTable :=
  if fd = target then t
  else
    match t.lookup fd with
    | some d => t.insert target { d with closeOnExec := false }
    | none => t

/-- `fcntl` with `FD_CLOEXEC`. -/
def setCloseOnExec (t : DescriptorTable) (fd : ℕ) : DescriptorTable :=
  match t.lookup fd with
  | some d => t.insert fd { d with closeOnExec := true }
  | none => t

/-- What `execve` leaves open. -/
def exec (t : DescriptorTable) : DescriptorTable :=
  ⟨t.entries.filter fun e => !e.2.closeOnExec, t.nodupKeys.sublist List.filter_sublist⟩

/-- Some descriptor of the table refers to `f`. -/
def Refers (t : DescriptorTable) (f : OpenFile) : Prop := ∃ e ∈ t.entries, e.2.file = f

instance (t : DescriptorTable) (f : OpenFile) : Decidable (t.Refers f) :=
  inferInstanceAs (Decidable (∃ e ∈ t.entries, e.2.file = f))

/-- The only descriptor of the table that refers to `f`, if there is one, is `fd`. -/
def OnlyAt (t : DescriptorTable) (f : OpenFile) (fd : ℕ) : Prop :=
  ∀ fd' d, t.lookup fd' = some d → d.file = f → fd' = fd

/-- The pipes of the table are among the first `n`. -/
def Known (t : DescriptorTable) (n : ℕ) : Prop :=
  ∀ fd d, t.lookup fd = some d → ∀ pipe ∈ d.file.pipe?, pipe < n

theorem refers_iff : t.Refers f ↔ ∃ fd d, t.lookup fd = some d ∧ d.file = f := by
  constructor
  · rintro ⟨⟨fd, d⟩, he, hf⟩
    exact ⟨fd, d, AList.mem_lookup_iff.mpr he, hf⟩
  · rintro ⟨fd, d, hd, hf⟩
    exact ⟨⟨fd, d⟩, AList.mem_lookup_iff.mp hd, hf⟩

theorem ne_of_lookup (hd : t.lookup fd = some d) (hfd' : fd' ∉ t) : fd ≠ fd' := by
  intro heq
  rw [heq, AList.lookup_eq_none.mpr hfd'] at hd
  cases hd

/-! ## What is open afterwards -/

theorem lookup_addPipe_of_some (hr : r ∉ t) (hw : w ∉ t) (hd : t.lookup fd = some d) :
    (t.addPipe pipe r w).lookup fd = some d := by
  rw [addPipe, AList.lookup_insert_ne (ne_of_lookup hd hw),
    AList.lookup_insert_ne (ne_of_lookup hd hr)]
  exact hd

theorem lookup_addPipe_read (hne : r ≠ w) :
    (t.addPipe pipe r w).lookup r = some ⟨.readEnd pipe, false⟩ := by
  rw [addPipe, AList.lookup_insert_ne hne, AList.lookup_insert]

theorem lookup_addPipe_write :
    (t.addPipe pipe r w).lookup w = some ⟨.writeEnd pipe, false⟩ := by
  rw [addPipe, AList.lookup_insert]

theorem lookup_addPipe_cases (hd : (t.addPipe pipe r w).lookup fd = some d) :
    t.lookup fd = some d ∨ (fd = r ∧ d.file = .readEnd pipe) ∨
      (fd = w ∧ d.file = .writeEnd pipe) := by
  rw [addPipe] at hd
  by_cases hfdw : fd = w
  · rw [hfdw, AList.lookup_insert, Option.some.injEq] at hd
    exact .inr (.inr ⟨hfdw, by rw [← hd]⟩)
  · rw [AList.lookup_insert_ne hfdw] at hd
    by_cases hfdr : fd = r
    · rw [hfdr, AList.lookup_insert, Option.some.injEq] at hd
      exact .inr (.inl ⟨hfdr, by rw [← hd]⟩)
    · rw [AList.lookup_insert_ne hfdr] at hd
      exact .inl hd

theorem lookup_close :
    (t.erase fd).lookup fd' = some d ↔ fd' ≠ fd ∧ t.lookup fd' = some d := by
  by_cases h : fd' = fd
  · rw [h, AList.lookup_erase]
    simp
  · rw [AList.lookup_erase_ne h]
    simp [h]

theorem lookup_dup2_of_ne (h : fd' ≠ target) :
    (t.dup2 fd target).lookup fd' = t.lookup fd' := by
  simp only [dup2]
  split
  · rfl
  · split
    · exact AList.lookup_insert_ne h
    · rfl

theorem lookup_dup2_self (hd : t.lookup fd = some d) (hne : fd ≠ target) :
    (t.dup2 fd target).lookup target = some { d with closeOnExec := false } := by
  simp only [dup2, if_neg hne, hd]
  exact AList.lookup_insert t

theorem lookup_setCloseOnExec_of_ne (h : fd' ≠ fd) :
    (t.setCloseOnExec fd).lookup fd' = t.lookup fd' := by
  simp only [setCloseOnExec]
  split
  · exact AList.lookup_insert_ne h
  · rfl

theorem lookup_setCloseOnExec_self (hd : t.lookup fd = some d) :
    (t.setCloseOnExec fd).lookup fd = some { d with closeOnExec := true } := by
  simp only [setCloseOnExec, hd]
  exact AList.lookup_insert t

theorem file_of_lookup_setCloseOnExec (h : (t.setCloseOnExec fd).lookup fd' = some d) :
    ∃ old, t.lookup fd' = some old ∧ old.file = d.file := by
  by_cases hne : fd' = fd
  · rw [hne] at h
    cases hold : t.lookup fd with
    | none =>
        simp only [setCloseOnExec, hold] at h
        cases h
    | some old =>
        rw [lookup_setCloseOnExec_self hold, Option.some.injEq] at h
        rw [hne, hold]
        exact ⟨old, rfl, by rw [← h]⟩
  · rw [lookup_setCloseOnExec_of_ne hne] at h
    exact ⟨d, h, rfl⟩

theorem lookup_exec :
    t.exec.lookup fd = some d ↔ t.lookup fd = some d ∧ d.closeOnExec = false := by
  rw [← Option.mem_def, ← Option.mem_def, AList.mem_lookup_iff, AList.mem_lookup_iff, exec,
    List.mem_filter, Bool.not_eq_true']

/-! ## The only descriptor of a file -/

theorem OnlyAt.close (h : t.OnlyAt f fd') (fd : ℕ) : OnlyAt (t.erase fd) f fd' :=
  fun fd'' d hd => h fd'' d (lookup_close.mp hd).2

/-- Nothing is left of a file once its only descriptor is closed. -/
theorem OnlyAt.gone (h : t.OnlyAt f fd) : ¬Refers (t.erase fd) f := by
  rw [refers_iff]
  rintro ⟨fd', d, hd, hf⟩
  rcases lookup_close.mp hd with ⟨hne, hd⟩
  exact hne (h fd' d hd hf)

theorem not_refers_close (h : ¬t.Refers f) (fd : ℕ) : ¬Refers (t.erase fd) f := by
  rw [refers_iff] at h ⊢
  rintro ⟨fd', d, hd, hf⟩
  exact h ⟨fd', d, (lookup_close.mp hd).2, hf⟩

theorem OnlyAt.exec (h : t.OnlyAt f fd) : t.exec.OnlyAt f fd :=
  fun fd' d hd => h fd' d (lookup_exec.mp hd).1

theorem not_refers_exec (h : ¬t.Refers f) : ¬t.exec.Refers f := by
  rw [refers_iff] at h ⊢
  rintro ⟨fd', d, hd, hf⟩
  exact h ⟨fd', d, (lookup_exec.mp hd).1, hf⟩

/-- A copy of a descriptor of another file changes nothing for `f`. -/
theorem lookup_dup2_file {d d' : Descriptor} {fd' : ℕ} (hd : t.lookup fd = some d)
    (hd' : (t.dup2 fd target).lookup fd' = some d') (hne : d.file ≠ d'.file) :
    t.lookup fd' = some d' := by
  by_cases hfd : fd' = target
  · by_cases heq : fd = target
    · rwa [dup2, if_pos heq] at hd'
    · rw [hfd, lookup_dup2_self hd heq, Option.some.injEq] at hd'
      exact absurd (by rw [← hd']) hne
  · rwa [lookup_dup2_of_ne hfd] at hd'

theorem OnlyAt.setCloseOnExec (h : t.OnlyAt f fd') (fd : ℕ) :
    (t.setCloseOnExec fd).OnlyAt f fd' := by
  intro fd'' d hd hf
  rcases file_of_lookup_setCloseOnExec hd with ⟨old, hold, hfile⟩
  exact h fd'' old hold (hfile.trans hf)

theorem OnlyAt.dup2 {d : Descriptor} {held : ℕ} (h : t.OnlyAt f held) (hd : t.lookup fd = some d)
    (hne : d.file ≠ f) (target : ℕ) : (t.dup2 fd target).OnlyAt f held := by
  intro fd' d' hd' hf
  exact h fd' d' (lookup_dup2_file hd hd' (by rwa [hf])) hf

theorem not_refers_dup2 {d : Descriptor} (h : ¬t.Refers f) (hd : t.lookup fd = some d)
    (hne : d.file ≠ f) (target : ℕ) : ¬(t.dup2 fd target).Refers f := by
  rw [refers_iff] at h ⊢
  rintro ⟨fd', d', hd', hf⟩
  exact h ⟨fd', d', lookup_dup2_file hd hd' (by rwa [hf]), hf⟩

/-! ## Pipes stay known -/

theorem known_empty : (∅ : DescriptorTable).Known n := by
  intro fd d hd
  rw [AList.lookup_empty] at hd
  cases hd

theorem Known.mono {m : ℕ} (h : t.Known n) (hle : n ≤ m) : t.Known m :=
  fun fd d hd pipe hpipe => Nat.lt_of_lt_of_le (h fd d hd pipe hpipe) hle

theorem Known.insert (h : t.Known n) (hd : ∀ pipe ∈ d.file.pipe?, pipe < n) :
    Known (AList.insert fd d t) n := by
  intro fd' d' hd'
  by_cases hfd : fd' = fd
  · rw [hfd, AList.lookup_insert, Option.some.injEq] at hd'
    rw [← hd']
    exact hd
  · rw [AList.lookup_insert_ne hfd] at hd'
    exact h fd' d' hd'

theorem Known.addPipe (h : t.Known n) (hpipe : pipe < n) (r w : ℕ) :
    (t.addPipe pipe r w).Known n :=
  (h.insert (by simpa [OpenFile.pipe?] using hpipe)).insert
    (by simpa [OpenFile.pipe?] using hpipe)

theorem Known.close (h : t.Known n) (fd : ℕ) : Known (t.erase fd) n :=
  fun fd' d hd => h fd' d (lookup_close.mp hd).2

theorem Known.dup2 (h : t.Known n) (fd target : ℕ) : (t.dup2 fd target).Known n := by
  simp only [DescriptorTable.dup2]
  split
  · exact h
  · split
    · rename_i d hd
      exact h.insert (h fd d hd)
    · exact h

theorem Known.setCloseOnExec (h : t.Known n) (fd : ℕ) : (t.setCloseOnExec fd).Known n := by
  simp only [DescriptorTable.setCloseOnExec]
  split
  · rename_i d hd
    exact h.insert (h fd d hd)
  · exact h

theorem Known.exec (h : t.Known n) : t.exec.Known n :=
  fun fd d hd => h fd d (lookup_exec.mp hd).1

/-! ## The numbers that new descriptors get -/

/-- The lowest number that is not in use. -/
def lowest (t : DescriptorTable) : ℕ :=
  ((List.range (t.keys.length + 1)).find? (· ∉ t)).getD 0

theorem lowest_spec (t : DescriptorTable) : t.lowest ∉ t ∧ ∀ fd < t.lowest, fd ∈ t := by
  rw [lowest]
  cases hfind : (List.range (t.keys.length + 1)).find? (· ∉ t) with
  | none =>
      have hsubset : List.range (t.keys.length + 1) ⊆ t.keys := by
        intro fd hfd
        have hmem := List.find?_eq_none.mp hfind fd hfd
        exact AList.mem_keys.mp (by simpa using hmem)
      have hle := (List.subperm_of_subset List.nodup_range hsubset).length_le
      rw [List.length_range] at hle
      omega
  | some fd =>
      rw [List.find?_range_eq_some] at hfind
      refine ⟨by simpa using hfind.1, ?_⟩
      intro fd' hfd'
      simpa using hfind.2.2 fd' hfd'

/-- The two lowest numbers that are not in use. -/
def lowestTwo (t : DescriptorTable) : ℕ × ℕ :=
  (t.lowest, lowest (AList.insert t.lowest ⟨.other 0, false⟩ t))

/-- Two new numbers: where 0 is in use, the second one is greater than 1. -/
structure Lowest (t : DescriptorTable) (fds : ℕ × ℕ) : Prop where
  first : fds.1 ∉ t
  second : fds.2 ∉ t
  ne : fds.1 ≠ fds.2
  zero : 0 ∈ t ∨ fds.1 = 0
  second_pos : fds.2 ≠ 0
  second_ne_one : 0 ∈ t → fds.2 ≠ 1

theorem lowestTwo_spec (t : DescriptorTable) : t.Lowest t.lowestTwo := by
  obtain ⟨hfirst, hbelow⟩ := t.lowest_spec
  obtain ⟨hsecond, -⟩ := lowest_spec (AList.insert t.lowest ⟨.other 0, false⟩ t)
  change t.lowestTwo.2 ∉ _ at hsecond
  rw [AList.mem_insert, not_or] at hsecond
  obtain ⟨hne, hsecond⟩ := hsecond
  have hzero : 0 ∈ t ∨ t.lowest = 0 := by
    rcases Nat.eq_zero_or_pos t.lowest with h | h
    · exact .inr h
    · exact .inl (hbelow 0 h)
  refine ⟨hfirst, hsecond, fun h => hne h.symm, hzero, ?_, ?_⟩
  · intro h
    rw [h] at hne hsecond
    exact hzero.elim hsecond fun h => hne h.symm
  · intro h0 h
    rw [h] at hne hsecond
    have hpos : t.lowest ≠ 0 := fun h => hfirst (h ▸ h0)
    exact hsecond (hbelow 1 (by omega))

/-! ## Descriptors beside those of another table -/

/-- Only `fds` differ from the table `base`, in which they are not in use. -/
structure Beside (base t : DescriptorTable) (fds : List ℕ) : Prop where
  free : ∀ fd ∈ fds, fd ∉ base
  same : ∀ fd, fd ∉ fds → t.lookup fd = base.lookup fd

variable {base : DescriptorTable} {fds : List ℕ}

theorem Beside.refl (t : DescriptorTable) : t.Beside t [] :=
  ⟨fun _ h => absurd h List.not_mem_nil, fun _ _ => rfl⟩

theorem Beside.of_subset {fds' : List ℕ} (h : base.Beside t fds) (h₁ : fds ⊆ fds')
    (h₂ : fds' ⊆ fds) : base.Beside t fds' :=
  ⟨fun fd hfd => h.free fd (h₂ hfd), fun fd hfd => h.same fd fun hmem => hfd (h₁ hmem)⟩

theorem Beside.close (h : base.Beside t (fd :: fds)) : base.Beside (t.erase fd) fds := by
  refine ⟨fun fd' hfd' => h.free fd' (List.mem_cons_of_mem _ hfd'), ?_⟩
  intro fd' hfd'
  by_cases heq : fd' = fd
  · rw [heq, AList.lookup_erase, AList.lookup_eq_none.mpr (h.free fd List.mem_cons_self)]
  · rw [AList.lookup_erase_ne heq]
    apply h.same
    rw [List.mem_cons, not_or]
    exact ⟨heq, hfd'⟩

/-- A number that is not in use is not in use in the other table either. -/
theorem Beside.free_of_notMem (h : base.Beside t fds) (hfd : fd ∉ t) : fd ∉ base := by
  by_cases hmem : fd ∈ fds
  · exact h.free fd hmem
  · rwa [← AList.lookup_eq_none, ← h.same fd hmem, AList.lookup_eq_none]

theorem Beside.insert (h : base.Beside t fds) (hfd : fd ∉ t) (d : Descriptor) :
    base.Beside (AList.insert fd d t) (fd :: fds) := by
  constructor
  · intro fd' hfd'
    rcases List.mem_cons.mp hfd' with rfl | hfd'
    · exact h.free_of_notMem hfd
    · exact h.free fd' hfd'
  · intro fd' hfd'
    rw [List.mem_cons, not_or] at hfd'
    rw [AList.lookup_insert_ne hfd'.1]
    exact h.same fd' hfd'.2

theorem Beside.setCloseOnExec (h : base.Beside t fds) (hfd : fd ∈ fds) :
    base.Beside (t.setCloseOnExec fd) fds := by
  refine ⟨h.free, ?_⟩
  intro fd' hfd'
  have hne : fd' ≠ fd := by
    rintro rfl
    exact hfd' hfd
  rw [lookup_setCloseOnExec_of_ne hne]
  exact h.same fd' hfd'

end DescriptorTable

/-- The descriptor tables of all processes, the empty one for those that have exited or not
been started. Pipes are numbered in the order of their creation. -/
structure Kernel where
  tables : ℕ → DescriptorTable
  processes : ℕ
  pipes : ℕ
  known : ∀ q, (tables q).Known pipes

namespace Kernel

variable {k k' : Kernel} {q q' r w : ℕ} {f : OpenFile}

/-- The process `q` does something to its own table. -/
def modify (k : Kernel) (q : ℕ) (change : DescriptorTable → DescriptorTable)
    (hchange : ∀ t, t.Known k.pipes → (change t).Known k.pipes) : Kernel where
  tables := Function.update k.tables q (change (k.tables q))
  processes := k.processes
  pipes := k.pipes
  known := by
    intro q'
    by_cases h : q' = q
    · rw [h, Function.update_self]
      exact hchange _ (k.known q)
    · rw [Function.update_of_ne h]
      exact k.known q'

def close (k : Kernel) (q fd : ℕ) : Kernel :=
  k.modify q (·.erase fd) fun _ ht => ht.close fd

def dup2 (k : Kernel) (q fd target : ℕ) : Kernel :=
  k.modify q (·.dup2 fd target) fun _ ht => ht.dup2 fd target

def setCloseOnExec (k : Kernel) (q fd : ℕ) : Kernel :=
  k.modify q (·.setCloseOnExec fd) fun _ ht => ht.setCloseOnExec fd

def exec (k : Kernel) (q : ℕ) : Kernel :=
  k.modify q DescriptorTable.exec fun _ ht => ht.exec

def exit (k : Kernel) (q : ℕ) : Kernel :=
  k.modify q (fun _ => ∅) fun _ _ => DescriptorTable.known_empty

/-- `pipe`: the kernel picks two numbers `r` and `w` that are not in use. -/
def pipe (k : Kernel) (q r w : ℕ) : Option Kernel :=
  if r ∉ k.tables q ∧ w ∉ k.tables q ∧ r ≠ w then
    some {
      tables := Function.update k.tables q ((k.tables q).addPipe k.pipes r w)
      processes := k.processes
      pipes := k.pipes + 1
      known := by
        intro q'
        have hmono := (k.known q').mono (Nat.le_succ k.pipes)
        by_cases h : q' = q
        · rw [h] at hmono
          rw [h, Function.update_self]
          exact hmono.addPipe (Nat.lt_succ_self k.pipes) r w
        · rw [Function.update_of_ne h]
          exact hmono }
  else none

/-- `fork`: the new process has the next number and a copy of the table. -/
def fork (k : Kernel) (q : ℕ) : Kernel where
  tables := Function.update k.tables k.processes (k.tables q)
  processes := k.processes + 1
  pipes := k.pipes
  known := by
    intro q'
    by_cases h : q' = k.processes
    · rw [h, Function.update_self]
      exact k.known q
    · rw [Function.update_of_ne h]
      exact k.known q'

/-- Nobody can write to the pipe any more. -/
def Eof (k : Kernel) (pipe : ℕ) : Prop :=
  ∀ q < k.processes, ¬(k.tables q).Refers (.writeEnd pipe)

instance (k : Kernel) (pipe : ℕ) : Decidable (k.Eof pipe) :=
  inferInstanceAs (Decidable (∀ q < k.processes, ¬(k.tables q).Refers (.writeEnd pipe)))

@[simp] theorem tables_modify_self (change : DescriptorTable → DescriptorTable)
    (hchange : ∀ t, t.Known k.pipes → (change t).Known k.pipes) :
    (k.modify q change hchange).tables q = change (k.tables q) :=
  Function.update_self _ _ _

theorem tables_modify_of_ne {change : DescriptorTable → DescriptorTable}
    {hchange : ∀ t, t.Known k.pipes → (change t).Known k.pipes} (h : q' ≠ q) :
    (k.modify q change hchange).tables q' = k.tables q' :=
  Function.update_of_ne h _ _

theorem refers_of_close {fd : ℕ} (h : ((k.close q fd).tables q').Refers f) :
    (k.tables q').Refers f := by
  by_cases hq : q' = q
  · rw [hq, close, tables_modify_self] at h
    rw [hq]
    by_contra hnot
    exact DescriptorTable.not_refers_close hnot fd h
  · rwa [close, tables_modify_of_ne hq] at h

@[simp] theorem tables_fork_new : (k.fork q).tables k.processes = k.tables q :=
  Function.update_self _ _ _

theorem tables_fork_of_ne (h : q' ≠ k.processes) : (k.fork q).tables q' = k.tables q' :=
  Function.update_of_ne h _ _

/-- What `pipe` does: the two ends are open in `q` beside what was open before. -/
structure Piped (k : Kernel) (q r w : ℕ) (k' : Kernel) : Prop where
  readFree : r ∉ k.tables q
  writeFree : w ∉ k.tables q
  ne : r ≠ w
  processes : k'.processes = k.processes
  pipes : k'.pipes = k.pipes + 1
  others : ∀ q', q' ≠ q → k'.tables q' = k.tables q'
  kept : ∀ fd d, (k.tables q).lookup fd = some d → (k'.tables q).lookup fd = some d
  read : (k'.tables q).lookup r = some ⟨.readEnd k.pipes, false⟩
  write : (k'.tables q).lookup w = some ⟨.writeEnd k.pipes, false⟩
  new : ∀ fd d, (k'.tables q).lookup fd = some d → (k.tables q).lookup fd = some d ∨
    (fd = r ∧ d.file = .readEnd k.pipes) ∨ (fd = w ∧ d.file = .writeEnd k.pipes)

theorem pipe_spec (hk : k.pipe q r w = some k') : k.Piped q r w k' := by
  simp only [pipe] at hk
  split at hk
  · rename_i hfree
    rcases hfree with ⟨hr, hw, hne⟩
    rw [Option.some.injEq] at hk
    have htable : k'.tables q = (k.tables q).addPipe k.pipes r w := by
      rw [← hk]
      exact Function.update_self _ _ _
    refine ⟨hr, hw, hne, by rw [← hk], by rw [← hk], ?_, ?_, ?_, ?_, ?_⟩
    · intro q' h
      rw [← hk]
      exact Function.update_of_ne h _ _
    · intro fd d hd
      rw [htable]
      exact DescriptorTable.lookup_addPipe_of_some hr hw hd
    · rw [htable]
      exact DescriptorTable.lookup_addPipe_read hne
    · rw [htable]
      exact DescriptorTable.lookup_addPipe_write
    · intro fd d hd
      rw [htable] at hd
      exact DescriptorTable.lookup_addPipe_cases hd
  · cases hk

/-- The numbers of pipes to come are not in use. -/
theorem ne_of_le {pipe fd : ℕ} {d : Descriptor} (hle : k.pipes ≤ pipe)
    (hd : (k.tables q).lookup fd = some d) : d.file.pipe? ≠ some pipe := by
  intro hpipe
  exact absurd (k.known q fd d hd pipe hpipe) (Nat.not_lt.mpr hle)

namespace Piped

variable {pipe fd : ℕ}

theorem mem (h : k.Piped q r w k') (hfd : fd ∈ k.tables q) : fd ∈ k'.tables q := by
  rcases Option.isSome_iff_exists.mp (AList.lookup_isSome.mpr hfd) with ⟨d, hd⟩
  exact AList.lookup_isSome.mp (Option.isSome_iff_exists.mpr ⟨d, h.kept fd d hd⟩)

theorem onlyAt_new (h : k.Piped q r w k') : (k'.tables q).OnlyAt (.writeEnd k.pipes) w := by
  intro fd d hd hf
  rcases h.new fd d hd with hold | ⟨-, hread⟩ | ⟨hw, -⟩
  · exact absurd (by rw [hf]; rfl) (k.ne_of_le le_rfl hold)
  · rw [hf] at hread
    cases hread
  · exact hw

theorem onlyAt_old (h : k.Piped q r w k') (hlt : pipe < k.pipes)
    (hold : (k.tables q).OnlyAt (.writeEnd pipe) fd) :
    (k'.tables q).OnlyAt (.writeEnd pipe) fd := by
  intro fd' d hd hf
  rcases h.new fd' d hd with hold' | ⟨-, hread⟩ | ⟨-, hwrite⟩
  · exact hold fd' d hold' hf
  · rw [hf] at hread
    cases hread
  · rw [hf, OpenFile.writeEnd.injEq] at hwrite
    omega

end Piped

end Kernel

end CohesionIpc
