import CohesionIpc.Foundation.Inheritance
import CohesionIpc.Foundation.Transition
import CohesionIpc.Model.SpawnAttempt

/-! `spawn::client_session` on Windows: any number of calls of `spawn`, in any threads of the
parent, each of which may fail at any of its calls, and the sessions that they make. A handle goes
by the end of the pipe that it is for; no call makes a second one. -/

namespace CohesionIpc.Spawn.Windows

/-- `hpipes` of the first and of the second pipe. -/
inductive SpawnHandle
  | stdinRead
  | stdinWrite
  | stdoutRead
  | stdoutWrite
  deriving DecidableEq, Repr

/-- What `spawn` does, one after the other. `commandLine` stands for the calls of `append_quoted`
and `unicode`, and `close` for the destructor of a stream. -/
inductive Call
  | createPipe (read write : SpawnHandle)
  | fromHandle (h : SpawnHandle)
  | setInherit (h : SpawnHandle)
  | commandLine
  | createProcess
  | close (h : SpawnHandle)
  deriving DecidableEq, Repr

/-- The streams that `spawned` does not keep are closed in the end, the last one first. -/
def spawnCalls : List Call :=
  [.createPipe .stdinRead .stdinWrite, .fromHandle .stdinRead, .fromHandle .stdinWrite,
    .createPipe .stdoutRead .stdoutWrite, .fromHandle .stdoutRead, .fromHandle .stdoutWrite,
    .setInherit .stdinRead, .setInherit .stdoutWrite, .commandLine, .createProcess,
    .close .stdoutWrite, .close .stdinRead]

/-- How a call fails; in `from_handle` either `_open_osfhandle` does or `_fdopen`. -/
inductive Failure
  | call
  | fdopen
  deriving DecidableEq, Repr

/-- What is thrown then. The result of `SetHandleInformation` is not looked at: one that fails has
no effect on the call, only the server does not get its end. It is no event here. -/
def Call.throws (spawnedPath : String) : Call → Failure → Option Exception
  | .createPipe _ _, .call => some .badAlloc
  | .fromHandle _, .call => some (.runtimeError "crt error")
  | .fromHandle _, .fdopen => some (.runtimeError "crt stream error")
  | .commandLine, .call => some (.runtimeError "MultiByteToWideChar failed")
  | .createProcess, .call =>
      some (.serverExeNotFound ("Server executable not found: " ++ spawnedPath))
  | .createPipe _ _, .fdopen | .setInherit _, _ | .commandLine, .fdopen | .createProcess, .fdopen
  | .close _, _ => none

/-- A call of `spawn` and the session that comes of it. `calls` is what is left to do, `streams`
are the local streams, the last one first, `failure` is the call that has failed. `outbound` and
`reading` tell whether the session has `_outbound`, and its thread the stream that it reads. -/
structure Attempt where
  spawnedPath : String
  calls : List Call
  streams : List SpawnHandle
  child : Option ℕ
  running : Bool
  failure : Option (Call × Failure)
  outbound : Bool
  reading : Bool
  deriving DecidableEq, Repr

/-- `h` of the attempt `i` is `(i, h)`. -/
structure Spawner where
  handles : HandleTables (ℕ × SpawnHandle)
  attempts : List Attempt

/-- `succeeds` and `fails` are for the next call of an attempt, `destroys` is `_outbound.reset()`
in the destructor of a session, and `finishes` the end of its thread. -/
inductive SpawnEvent
  | begins (spawnedPath : String)
  | succeeds (i : ℕ)
  | fails (i : ℕ) (how : Failure)
  | destroys (i : ℕ)
  | finishes (i : ℕ)
  | childCloses (i k : ℕ) (h : SpawnHandle)
  | childExits (i : ℕ)
  deriving DecidableEq, Repr

namespace Attempt

def init (spawnedPath : String) : Attempt where
  spawnedPath := spawnedPath
  calls := spawnCalls
  streams := []
  child := none
  running := false
  failure := none
  outbound := true
  reading := true

/-- The constructor of the session has come to its end. -/
def Constructed (x : Attempt) : Prop := x.calls = [] ∧ x.failure = none

instance (x : Attempt) : Decidable x.Constructed :=
  inferInstanceAs (Decidable (_ ∧ _))

/-- The constructor has thrown. -/
def threw (x : Attempt) : Option Exception :=
  if x.calls = [] then x.failure.bind fun f => f.1.throws x.spawnedPath f.2 else none

/-- A stream that could not be opened has its descriptor closed, and those that have been opened
are closed by their destructors. -/
def fail (x : Attempt) (c : Call) (how : Failure) : Attempt :=
  let own := match c, how with
    | .fromHandle h, .fdopen => [h]
    | _, _ => []
  { x with calls := (own ++ x.streams).map .close, failure := some (c, how) }

end Attempt

/-- What a call of the attempt `i` does to the handles. -/
def Call.onHandles (i : ℕ) (t : HandleTables (ℕ × SpawnHandle)) :
    Call → HandleTables (ℕ × SpawnHandle)
  | .createPipe r w => (t.create (i, r)).create (i, w)
  | .setInherit h => t.setInherit (i, h)
  | .createProcess => t.start
  | .close h => t.close (i, h)
  | .fromHandle _ | .commandLine => t

/-- What it does to the attempt; `processes` have been started before. -/
def Call.onAttempt (processes : ℕ) (x : Attempt) : Call → Attempt
  | .fromHandle h => { x with streams := h :: x.streams }
  | .createProcess => { x with child := some processes, running := true }
  | .createPipe _ _ | .setInherit _ | .commandLine | .close _ => x

namespace Spawner

def init : Spawner where
  handles := .empty
  attempts := []

def step (s : Spawner) : SpawnEvent → Option Spawner
  | .begins spawnedPath => some { s with attempts := s.attempts ++ [.init spawnedPath] }
  | .succeeds i =>
      match s.attempts[i]? with
      | some x =>
          match x.calls with
          | c :: calls => some {
              handles := c.onHandles i s.handles
              attempts := s.attempts.set i
                (c.onAttempt s.handles.processes { x with calls := calls }) }
          | [] => none
      | none => none
  | .fails i how =>
      match s.attempts[i]? with
      | some x =>
          match x.calls with
          | c :: _ =>
              if (c.throws x.spawnedPath how).isSome then
                some { s with attempts := s.attempts.set i (x.fail c how) }
              else none
          | [] => none
      | none => none
  | .destroys i =>
      match s.attempts[i]? with
      | some x =>
          if x.Constructed ∧ x.outbound then
            some {
              handles := s.handles.close (i, .stdinWrite)
              attempts := s.attempts.set i { x with outbound := false } }
          else none
      | none => none
  | .finishes i =>
      -- `read_messages` returns at the end of the output, `WaitForSingleObject` after the child
      match s.attempts[i]? with
      | some x =>
          if x.Constructed ∧ x.reading ∧ s.handles.Gone (i, .stdoutWrite) ∧ ¬x.running then
            some {
              handles := s.handles.close (i, .stdoutRead)
              attempts := s.attempts.set i { x with reading := false } }
          else none
      | none => none
  | .childCloses i k h =>
      match s.attempts[i]? with
      | some x => x.child.map fun q => { s with handles := s.handles.closeGiven q (k, h) }
      | none => none
  | .childExits i =>
      match s.attempts[i]? with
      | some x =>
          if x.running then
            x.child.map fun q => {
              handles := s.handles.exit q
              attempts := s.attempts.set i { x with running := false } }
          else none
      | none => none

end Spawner

end CohesionIpc.Spawn.Windows
