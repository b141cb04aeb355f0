import CohesionIpc.Foundation.Transition
import Mathlib.Logic.Function.Basic

/-! `socket_handle`: any number of handles, and the descriptors that the operating system
has given out for them. -/

namespace CohesionIpc.Sockets

/-- `construct` takes what `socket` or `accept` has just returned; so does `resetTo`, which is
`reset(s)`. `transfer` is the constructor from another handle. -/
inductive HandleCall
  | construct (h : ℕ) (s : ℤ)
  | transfer (h other : ℕ)
  | reset (h : ℕ)
  | resetTo (h : ℕ) (s : ℤ)
  | destroy (h : ℕ)
deriving DecidableEq, Repr

/-- `socket` is `_socket` of the handles that exist. `opened` are the descriptors given out
and `closes` the calls of `::close`, both in order. `held` is an observation: what a handle
was given and has neither passed on nor given up. -/
structure SocketHandles where
  socket : ℕ → Option ℤ
  opened : List ℤ
  closes : List ℤ
  held : ℕ → Option ℤ
  raised : Bool

namespace SocketHandles

def init : SocketHandles where
  socket _ := none
  opened := []
  closes := []
  held _ := none
  raised := false

/-- A number is in use from when it is given out until it is closed. -/
def Open (s : SocketHandles) (d : ℤ) : Prop := s.closes.count d < s.opened.count d

/-- What the operating system may return: an error, or a number that is not in use. -/
def Fresh (s : SocketHandles) (d : ℤ) : Prop := d = -1 ∨ (0 ≤ d ∧ ¬s.Open d)

instance (s : SocketHandles) (d : ℤ) : Decidable (s.Open d) :=
  inferInstanceAs (Decidable (_ < _))

instance (s : SocketHandles) (d : ℤ) : Decidable (s.Fresh d) :=
  inferInstanceAs (Decidable (_ ∨ _))

/-- `reset()`. -/
def reset (s : SocketHandles) (h : ℕ) : SocketHandles :=
  match s.socket h with
  | none => s
  | some v =>
      { s with
        socket := Function.update s.socket h (some 0)
        closes := if v ≠ 0 then s.closes ++ [v] else s.closes
        held := Function.update s.held h none }

/-- `reset(s)`. -/
def resetTo (s : SocketHandles) (h : ℕ) (d : ℤ) : SocketHandles :=
  if d = -1 then { s with raised := true }
  else
    let s' := s.reset h
    { s' with
      socket := Function.update s'.socket h (some d)
      opened := s'.opened ++ [d]
      held := Function.update s'.held h (some d)
      raised := false }

def step (s : SocketHandles) : HandleCall → Option SocketHandles
  | .construct h d =>
      if s.socket h = none ∧ s.Fresh d then
        -- the destructor does not run for a handle whose constructor has thrown
        if d = -1 then some { s with raised := true }
        else some ({ s with socket := Function.update s.socket h (some 0) }.resetTo h d)
      else none
  | .transfer h other =>
      match s.socket h, s.socket other with
      | none, some v =>
          some { s with
            socket := Function.update (Function.update s.socket h (some v)) other (some 0)
            held := Function.update (Function.update s.held h (s.held other)) other none
            raised := false }
      | _, _ => none
  | .reset h =>
      if s.socket h ≠ none then some { s.reset h with raised := false } else none
  | .resetTo h d => if s.socket h ≠ none ∧ s.Fresh d then some (s.resetTo h d) else none
  | .destroy h =>
      if s.socket h ≠ none then
        some { s.reset h with socket := Function.update s.socket h none, raised := false }
      else none

end SocketHandles

end CohesionIpc.Sockets
