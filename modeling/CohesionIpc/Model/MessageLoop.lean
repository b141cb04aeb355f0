import CohesionIpc.Model.ReadMessages

/-! `read_messages` call by call, for endpoints whose other threads run in between. -/

namespace CohesionIpc

open ByteRepresentation

/-- In `header` and `payload` the loop is at a call of the read function, in `inMessage` at
`inbound.message`. -/
inductive LoopStage
  | header
  | payload (n : ℕ)
  | inMessage
  | ended
deriving DecidableEq, Repr

/-- The variables of `read_messages`, and the calls that `inbound` has got. -/
structure MessageLoop where
  size : List UInt8
  buffer : List UInt8
  stage : LoopStage
  calls : List ChannelCall
deriving DecidableEq, Repr

/-- The number of bytes that the read function is called for. -/
def LoopStage.requested : LoopStage → Option ℕ
  | .header => some 4
  | .payload n => some n
  | .inMessage | .ended => none

namespace MessageLoop

/-- `size` holds whatever was on the stack. -/
def init (host : ByteOrder) (size : UInt32) : MessageLoop := ⟨bytes host size, [], .header, []⟩

/-- The read function has returned after it has stored `obtained`. -/
def returned (host : ByteOrder) (reorder : Bool) (l : MessageLoop) (obtained : List UInt8) :
    MessageLoop :=
  match l.stage with
  | .header =>
      let size := Buffer.overwrite l.size obtained
      if obtained.length = 4 then
        let size := if reorder then ByteRepresentation.reorder host size else size
        let n := (value host size).toNat
        { l with size := size, buffer := Buffer.resize 0 l.buffer n, stage := .payload n }
      else { l with size := size, stage := .ended }
  | .payload _ =>
      -- the number of bytes obtained by this call is not looked at
      let buffer := Buffer.overwrite l.buffer obtained
      { l with
        buffer := buffer
        stage := .inMessage
        calls := l.calls ++ [.message buffer] }
  | .inMessage | .ended => l

def messageReturned (l : MessageLoop) : MessageLoop := { l with stage := .header }

/-- The call that the endpoint makes when `read_messages` has returned. -/
def disconnect (l : MessageLoop) : MessageLoop := { l with calls := l.calls ++ [.disconnect] }

variable {σ : Type*} (host : ByteOrder) (R : ReadFunction σ) (reorder : Bool)

/-- Two calls of the read function and the return of `inbound.message`. -/
def turn (l : MessageLoop) (s : σ) : MessageLoop × σ :=
  let header := R.read s 4
  let l := l.returned host reorder header.1
  match l.stage with
  | .payload n =>
      let payload := R.read header.2 n
      ((l.returned host reorder payload.1).messageReturned, payload.2)
  | _ => (l, header.2)

/-- Call by call the loop makes the turn of `read_messages`. -/
theorem turn_eq (l : MessageLoop) (s : σ) (hstage : l.stage = .header) :
    match readMessagesTurn host R reorder ⟨l.size, l.buffer, s⟩ with
    | some r => l.turn host R reorder s =
        (⟨r.size, r.buffer, .header, l.calls ++ [.message r.buffer]⟩, r.stream)
    | none => (l.turn host R reorder s).1.stage = .ended ∧
        (l.turn host R reorder s).1.calls = l.calls := by
  simp only [readMessagesTurn]
  by_cases hlen : (R.read s 4).1.length = 4
  · simp only [turn, returned, hstage, if_pos hlen, messageReturned]
  · simp only [turn, returned, hstage, if_neg hlen, and_self]

end MessageLoop

end CohesionIpc
