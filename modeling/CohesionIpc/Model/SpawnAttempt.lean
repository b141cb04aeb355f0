import CohesionIpc.Model.Spawn

/-! `client_session::spawn` on Unix where its calls may fail: the constructors and destructors of
the three pipes, `fork`, and the report of a failed `execve` through the third pipe. -/

namespace CohesionIpc.Spawn

inductive Exception
  | badAlloc
  | runtimeError (what : String)
  | serverExeNotFound (what : String)
  deriving DecidableEq

/-- Which calls in the constructor of an `anonymous_pipe` fail. -/
structure PipeFaults where
  pipe : Bool
  fdopenRead : Bool
  fdopenWrite : Bool
  deriving DecidableEq

/-- Which calls of `spawn` fail, if they are made; `execve` with this `errno`. -/
structure Faults where
  toPipe : PipeFaults
  fromPipe : PipeFaults
  fromError : PipeFaults
  fork : Bool
  execve : Option ℕ
  deriving DecidableEq

/-- Where the parent is: in `spawn`, with the descriptors whose streams are still to be closed
by destructors, or with the outcome of the constructor of `client_session`. -/
inductive ParentStage
  | closing (p : Pipes)
  | reading (p : Pipes)
  | unwinding (fds : List ℕ) (e : Exception)
  | returning (fds : List ℕ)
  | threw (e : Exception)
  | constructed

/-- Where the child is. `writing` is at the `fwrite`, whose bytes `exit` flushes. -/
inductive ChildStage
  | absent
  | preparing (p : Pipes) (calls : List Call)
  | writing (p : Pipes) (error : ℕ)
  | leaving
  | executing
  | exited

/-- The thread of the session, which reads until the child closes its output. -/
inductive SessionThread
  | notStarted
  | running
  | ended
  deriving DecidableEq

/-- `report` is what has been written to the third pipe, `unwaited` the children that have been
forked and not waited for, and `exitHandlerCalls` counts the calls of the handler. -/
structure Attempt where
  kernel : Kernel
  pid : ℕ
  parent : ParentStage
  child : ChildStage
  report : Option ℕ
  unwaited : List ℕ
  thread : SessionThread
  exitHandlerCalls : ℕ

inductive Who
  | parent
  | child
  | thread
  deriving DecidableEq

/-- The descriptors that the destructor of a pipe closes. -/
def AnonymousPipe.files (p : AnonymousPipe) : List ℕ := [p.write, p.read]

/-- In the order of the destructors: `from_error`, `from`, `to`. -/
def Pipes.files (p : Pipes) : List ℕ := p.fromError.files ++ p.fromChild.files ++ p.toChild.files

/-- `from_fd`, with the stream by its descriptor. -/
def fromFd (k : Kernel) (fd : ℕ) (fails : Bool) : Kernel × Option ℕ :=
  if fails then (k.close parent fd, none) else (k, some fd)

/-- The constructor of `anonymous_pipe`: a pipe, or an exception with the descriptors of the
members that are destroyed. The kernel gives out the lowest numbers. -/
def openPipe (k : Kernel) (f : PipeFaults) :
    Kernel × Except (List ℕ × Exception) AnonymousPipe :=
  let p := (k.tables parent).lowestTwo
  match if f.pipe then none else k.pipe parent p.1 p.2 with
  | none => (k, .error ([], .badAlloc))
  | some k' =>
      let read := fromFd k' p.1 f.fdopenRead
      let write := fromFd read.1 p.2 f.fdopenWrite
      match read.2, write.2 with
      | some read', some write' => (write.1, .ok ⟨k.pipes, read', write'⟩)
      | _, _ =>
          (write.1, .error (write.2.toList ++ read.2.toList, .runtimeError "crt stream error"))

namespace Attempt

/-- Before `fork`, or without a child. -/
def childless (k : Kernel) (stage : ParentStage) : Attempt where
  kernel := k
  pid := k.processes
  parent := stage
  child := .absent
  report := none
  unwaited := []
  thread := .notStarted
  exitHandlerCalls := 0

/-- After `fork`. -/
def forked (k : Kernel) (p : Pipes) : Attempt :=
  { childless (k.fork Spawn.parent) (.closing p) with
    pid := k.processes
    child := .preparing p (childCalls p)
    unwaited := [k.processes] }

def forkingFailed : Exception := .runtimeError "forking the process failed"

/-- `spawn` up to the return of `fork`. -/
def start (k : Kernel) (f : Faults) : Attempt :=
  match openPipe k f.toPipe with
  | (k, .error (fds, e)) => childless k (.unwinding fds e)
  | (k, .ok into) =>
      match openPipe k f.fromPipe with
      | (k, .error (fds, e)) => childless k (.unwinding (fds ++ into.files) e)
      | (k, .ok back) =>
          match openPipe k f.fromError with
          | (k, .error (fds, e)) =>
              childless k (.unwinding (fds ++ back.files ++ into.files) e)
          | (k, .ok error) =>
              let k := k.setCloseOnExec Spawn.parent error.write
              let p : Pipes := ⟨into, back, error⟩
              if f.fork then childless k (.unwinding p.files forkingFailed) else forked k p

def failedToExecute (spawnedPath : String) (error : ℕ) : Exception :=
  .serverExeNotFound ("Failed to execute: " ++ spawnedPath ++ ", error: " ++ toString error)

def parentStep (spawnedPath : String) (s : Attempt) : Option Attempt :=
  match s.parent with
  | .closing p => some { s with
      kernel := s.kernel.close Spawn.parent p.fromError.write
      parent := .reading p }
  | .reading p =>
      -- `fread` returns when there is an error code or nobody is left to write one
      match s.report with
      | some error => some { s with
          parent := .unwinding
            ([p.fromError.read] ++ p.fromChild.files ++ p.toChild.files)
            (failedToExecute spawnedPath error) }
      | none =>
          if s.kernel.Eof p.fromError.number then some { s with
            parent := .returning [p.fromError.read, p.fromChild.write, p.toChild.read] }
          else none
  | .unwinding (fd :: fds) e => some { s with
      kernel := s.kernel.close Spawn.parent fd
      parent := .unwinding fds e }
  | .unwinding [] e => some { s with parent := .threw e }
  | .returning (fd :: fds) => some { s with
      kernel := s.kernel.close Spawn.parent fd
      parent := .returning fds }
  | .returning [] => some { s with parent := .constructed, thread := .running }
  | .threw _ | .constructed => none

def childStep (f : Faults) (s : Attempt) : Option Attempt :=
  match s.child with
  | .preparing p (.exec :: _) =>
      match f.execve with
      | some error => some { s with child := .writing p error }
      | none => some { s with kernel := s.kernel.exec s.pid, child := .executing }
  | .preparing p (call :: calls) =>
      (call.run p s.pid s.kernel).map fun k => { s with
        kernel := k
        child := .preparing p calls }
  | .preparing _ [] => none
  | .writing p error =>
      let file := ((s.kernel.tables s.pid).lookup p.fromError.write).map Descriptor.file
      some { s with
        report := if file = some (.writeEnd p.fromError.number) then some error else s.report
        child := .leaving }
  | .leaving | .executing => some { s with kernel := s.kernel.exit s.pid, child := .exited }
  | .absent | .exited => none

/-- `read_messages` has returned, and the deleter that comes with `spawned` waits for the child
and calls the handler. -/
def threadStep (s : Attempt) : Option Attempt :=
  match s.thread, s.child with
  | .running, .exited => some { s with
      unwaited := s.unwaited.erase s.pid
      thread := .ended
      exitHandlerCalls := s.exitHandlerCalls + 1 }
  | _, _ => none

def step (spawnedPath : String) (f : Faults) (s : Attempt) : Who → Option Attempt
  | .parent => s.parentStep spawnedPath
  | .child => s.childStep f
  | .thread => s.threadStep

end Attempt

end CohesionIpc.Spawn
