import CohesionIpc.Foundation.Descriptors
import CohesionIpc.Foundation.Transition

/-! `spawn::client_session` on Unix: the pipes to the server process, the calls of both
processes after `fork`, and the destructor. -/

namespace CohesionIpc.Spawn

/-- The process with the client sessions. -/
def parent : ℕ := 0

/-- `anonymous_pipe`: a pipe and the descriptors of its ends. -/
structure AnonymousPipe where
  number : ℕ
  read : ℕ
  write : ℕ
  deriving DecidableEq

/-- `to`, `from` and `from_error` of a `spawn` call. -/
structure Pipes where
  toChild : AnonymousPipe
  fromChild : AnonymousPipe
  fromError : AnonymousPipe
  deriving DecidableEq

/-- A call after `fork`. `awaitEof` is the `fread` on `from_error`, which reads nothing when
`execve` succeeds. -/
inductive Call
  | close (fd : ℕ)
  | dup2 (fd target : ℕ)
  | exec
  | awaitEof
  deriving DecidableEq

/-- The parent's part of `spawn`, up to the destructors of the pipes. -/
def parentCalls (p : Pipes) : List Call :=
  [.close p.fromError.write, .awaitEof, .close p.fromError.read, .close p.fromChild.write,
    .close p.toChild.read]

/-- The child's part of `spawn`. -/
def childCalls (p : Pipes) : List Call :=
  [.close p.toChild.write, .close p.fromChild.read, .close p.fromError.read,
    .dup2 p.toChild.read 0, .dup2 p.fromChild.write 1, .exec]

/-- `_outbound` is set until the destructor resets it; `reading` until the thread has come to
its end; `running` while the child has not exited. -/
structure Session where
  pipes : Pipes
  child : ℕ
  outbound : Bool
  reading : Bool
  running : Bool
  deriving DecidableEq

/-- What the parent is doing: inside the constructor, with the calls that it and the child
have yet to make, or waiting in the destructor of the session at `i`. -/
inductive Activity
  | idle
  | starting (pipes : Pipes) (child : ℕ) (parentCalls childCalls : List Call)
  | joining (i : ℕ)
  deriving DecidableEq

structure Spawning where
  kernel : Kernel
  sessions : List Session
  activity : Activity

inductive SpawnCall
  | construct (toChild fromChild fromError : ℕ × ℕ)
  | parent
  | child
  | destroy (i : ℕ)
  | join
  | finishReader (i : ℕ)
  | childCloses (i fd : ℕ)
  | childExits (i : ℕ)
  deriving DecidableEq

/-- A process as it has been started, with its three standard descriptors. -/
structure Standard where
  table : DescriptorTable
  std : ∀ fd < 3, fd ∈ table
  known : table.Known 0

def anonymousPipe (k : Kernel) (fds : ℕ × ℕ) : Option (AnonymousPipe × Kernel) :=
  (k.pipe parent fds.1 fds.2).map fun k' => (⟨k.pipes, fds.1, fds.2⟩, k')

/-- The three pipes, the last of which `execve` does not leave to the child. -/
def openPipes (k : Kernel) (toChild fromChild fromError : ℕ × ℕ) : Option (Pipes × Kernel) :=
  (anonymousPipe k toChild).bind fun (into, k) =>
    (anonymousPipe k fromChild).bind fun (back, k) =>
      (anonymousPipe k fromError).map fun (error, k) =>
        (⟨into, back, error⟩, k.setCloseOnExec parent error.write)

/-- The process `q` makes a call. -/
def Call.run (p : Pipes) (q : ℕ) (k : Kernel) : Call → Option Kernel
  | .close fd => some (k.close q fd)
  | .dup2 fd target => some (k.dup2 q fd target)
  | .exec => some (k.exec q)
  | .awaitEof => if k.Eof p.fromError.number then some k else none

namespace Spawning

def init (given : Standard) : Spawning where
  kernel := {
    tables := Function.update (fun _ => ∅) parent given.table
    processes := parent + 1
    pipes := 0
    known := by
      intro q
      by_cases h : q = parent
      · rw [h, Function.update_self]
        exact given.known
      · rw [Function.update_of_ne h]
        exact DescriptorTable.known_empty }
  sessions := []
  activity := .idle

def step (s : Spawning) : SpawnCall → Option Spawning
  | .construct toChild fromChild fromError =>
      match s.activity with
      | .idle =>
          (openPipes s.kernel toChild fromChild fromError).map fun (p, k) =>
            { s with
              kernel := k.fork parent
              activity := .starting p k.processes (parentCalls p) (childCalls p) }
      | _ => none
  | .parent =>
      match s.activity with
      | .starting p child (call :: calls) rest =>
          (call.run p parent s.kernel).map fun k =>
            { s with kernel := k, activity := .starting p child calls rest }
      | .starting p child [] _ =>
          -- `_outbound` is taken from `spawned`, and the thread starts
          some { s with
            sessions := s.sessions ++ [⟨p, child, true, true, true⟩]
            activity := .idle }
      | _ => none
  | .child =>
      match s.activity with
      | .starting p child calls (call :: rest) =>
          (call.run p child s.kernel).map fun k =>
            { s with kernel := k, activity := .starting p child calls rest }
      | _ => none
  | .destroy i =>
      match s.activity, s.sessions[i]? with
      | .idle, some x =>
          some {
            kernel := s.kernel.close parent x.pipes.toChild.write
            sessions := s.sessions.set i { x with outbound := false }
            activity := .joining i }
      | _, _ => none
  | .join =>
      match s.activity with
      | .joining i =>
          match s.sessions[i]? with
          | some x =>
              if x.reading then none
              else some { s with sessions := s.sessions.eraseIdx i, activity := .idle }
          | none => none
      | _ => none
  | .finishReader i =>
      -- `read_messages` returns at the end of `from`, `waitid` when the child has exited
      match s.sessions[i]? with
      | some x =>
          if x.reading ∧ s.kernel.Eof x.pipes.fromChild.number ∧ ¬x.running then
            some { s with
              kernel := s.kernel.close parent x.pipes.fromChild.read
              sessions := s.sessions.set i { x with reading := false } }
          else none
      | none => none
  | .childCloses i fd =>
      match s.sessions[i]? with
      | some x =>
          if x.running ∧ fd < 3 then some { s with kernel := s.kernel.close x.child fd } else none
      | none => none
  | .childExits i =>
      match s.sessions[i]? with
      | some x =>
          if x.running then
            some { s with
              kernel := s.kernel.exit x.child
              sessions := s.sessions.set i { x with running := false } }
          else none
      | none => none

end Spawning

end CohesionIpc.Spawn
