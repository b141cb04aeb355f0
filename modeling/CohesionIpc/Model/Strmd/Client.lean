import CohesionIpc.Foundation.Transition
import CohesionIpc.Model.Strmd.ClientSession

/-! The handle variables around a `client_session` and the calls that act on them. -/

namespace CohesionIpc.Strmd

/-- A call that takes a handle variable, the release of one, or the end of the session. -/
inductive HandleOp (κ : Type*)
  | subscribe (handle : ℕ) (messageId : Int32) (callback : κ)
  | request (handle : ℕ) (id : Int32) (payload : List UInt8) (responseId : Int32) (callback : κ)
  | requestMany (handle : ℕ) (id : Int32) (payload : List UInt8) (callback : List (Int32 × κ))
  | release (handle : ℕ)
  | destroy

/-- A session, whether it is still there, the handle variables, and what the deleters run
by the last call have found. -/
structure Client (κ : Type*) where
  session : ClientSession κ
  alive : Bool
  handles : ℕ → Handle
  erasures : List (Option (Entry κ))

variable {κ : Type*}

/-- The handle variable a call acts on. -/
def HandleOp.handle? : HandleOp κ → Option ℕ
  | .subscribe h .. | .request h .. | .requestMany h .. | .release h => some h
  | .destroy => none

def HandleOp.issues : HandleOp κ → Bool
  | .request .. | .requestMany .. => true
  | _ => false

namespace Client

def init : Client κ := ⟨.init, true, fun _ => [], []⟩

def put (s : Client κ) (h : ℕ) (r : ClientSession.Held κ) : Client κ :=
  { s with
    session := r.session
    handles := Function.update s.handles h r.handle
    erasures := r.erasures }

/-- A release runs the deleters also when the session is gone. -/
def release (s : Client κ) (h : ℕ) : Client κ := s.put h (s.session.reset (s.handles h) [])

def step (packer : Packer) (s : Client κ) : HandleOp κ → Option (Client κ)
  | .subscribe h messageId callback =>
      if s.alive then some (s.put h (s.session.subscribe (s.handles h) messageId callback))
      else none
  | .request h id payload responseId callback =>
      if s.alive then
        some (s.put h (s.session.request packer (s.handles h) id payload responseId callback))
      else none
  | .requestMany h id payload callback =>
      if s.alive then
        some (s.put h (s.session.requestMany packer (s.handles h) id payload callback))
      else none
  | .release h => some (s.release h)
  | .destroy => if s.alive then some { s with alive := false, erasures := [] } else none

end Client

end CohesionIpc.Strmd
