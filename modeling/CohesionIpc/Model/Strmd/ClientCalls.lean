import CohesionIpc.Foundation.SharedBuffer
import CohesionIpc.Model.Strmd.Client

/-! `client_session` while calls are nested in each other: a callback runs in its place in
the map, and the outbound channel reads a message in its place in the buffer, whatever is
called in between. -/

namespace CohesionIpc.Strmd

variable {κ : Type*}

def Entry.callback : Entry κ → κ
  | .message _ callback => callback
  | .request _ callback => callback

/-- `client_session::message` up to the call: `m` and `i` are iterators. -/
def ClientSession.select (packer : Packer) (s : ClientSession κ) (payload : List UInt8) :
    Dispatch Deleter :=
  match packer.id.decode payload with
  | none => .raised
  | some (responseId, d) =>
      match s.messageCallbacks.find? responseId with
      | some m => .call (.message m.address) d
      | none =>
          if s.callbacks.lowerBound rank (toLex (responseId.toInt, 0)) ≠
              s.callbacks.upperBound rank (toLex (responseId.toInt, 2 ^ 64 - 1)) then
            match packer.token.decode d with
            | none => .raised
            | some (token, d) =>
                match s.callbacks.find? (responseId, token) with
                | some i => .call (.request i.address) d
                | none => .ignored
          else .ignored

/-- A call that has not returned: a callback, with the entry it is in and what its
deserializer is placed in front of, or `message` of the outbound channel. -/
inductive ClientFrame (κ : Type*)
  | running (iterator : Deleter) (entry : Entry κ) (rest : List UInt8)
  | sending (view : View) (message : List UInt8)

/-- A client, its `_buffer` as storage, the calls that have not returned, the innermost one
first, and whether the last step ended in an exception. -/
structure ClientCalls (κ : Type*) where
  client : Client κ
  buffer : SharedBuffer UInt8
  stack : List (ClientFrame κ)
  raised : Bool

/-- What the code of the innermost call does, or something outside all of them. `spare` is
the room that the buffer gets behind a message that did not fit. -/
inductive ClientCall (κ : Type*)
  | call (op : HandleOp κ) (spare : List UInt8)
  | message (payload : List UInt8)
  | finish

namespace ClientCalls

def init : ClientCalls κ := ⟨.init, .empty, [], false⟩

/-- The messages being read, with what they were. -/
def lent (s : ClientCalls κ) : List (View × List UInt8) :=
  s.stack.filterMap fun
    | .sending view message => some (view, message)
    | .running .. => none

/-- `_outbound->message` is called with a view of the buffer. -/
def send (s : ClientCalls κ) (spare bytes : List UInt8) : ClientCalls κ :=
  let buffer := s.buffer.rewrite spare bytes
  { s with
    buffer := buffer
    stack := .sending (buffer.view bytes.length) bytes :: s.stack }

/-- The session outlives the calls on it. -/
def step (packer : Packer) (s : ClientCalls κ) : ClientCall κ → Option (ClientCalls κ)
  | .call .destroy _ => none
  | .call op spare =>
      (s.client.step packer op).map fun client =>
        let s' := { s with client := client, raised := false }
        if op.issues then s'.send spare client.session.buffer else s'
  | .message payload =>
      match s.client.session.select packer payload with
      | .raised => some { s with raised := true }
      | .ignored => some { s with raised := false }
      | .call iterator rest =>
          (store.entry s.client.session iterator).map fun entry =>
            { s with stack := .running iterator entry rest :: s.stack, raised := false }
  | .finish =>
      match s.stack with
      | [] => none
      | _ :: rest => some { s with stack := rest, raised := false }

variable {packer : Packer} {s t : ClientCalls κ}

/-- A call of the client, but for the end of the session. -/
theorem step_call {op : HandleOp κ} {spare : List UInt8}
    (hs : s.step packer (.call op spare) = some t) :
    ∃ client, s.client.step packer op = some client ∧
      t = if op.issues then { s with client := client, raised := false }.send spare
          client.session.buffer
        else { s with client := client, raised := false } := by
  have hmap : (s.client.step packer op).map (fun client =>
      if op.issues then { s with client := client, raised := false }.send spare
        client.session.buffer
      else { s with client := client, raised := false }) = some t := by
    cases op with
    | destroy => cases hs
    | _ => exact hs
  rcases Option.map_eq_some_iff.mp hmap with ⟨client, hclient, rfl⟩
  exact ⟨client, hclient, rfl⟩

end ClientCalls

/-- The three outcomes of a dispatch; a callback that is called is in its map. -/
theorem ClientSession.select_cases (packer : Packer) (s : ClientSession κ)
    (payload : List UInt8) :
    (s.select packer payload = .raised ∧ s.message packer payload = .raised) ∨
      (s.select packer payload = .ignored ∧ s.message packer payload = .ignored) ∨
      ∃ iterator entry rest, store.entry s iterator = some entry ∧
        s.select packer payload = .call iterator rest ∧
        s.message packer payload = .call entry.callback rest := by
  simp only [select, message]
  cases hid : packer.id.decode payload with
  | none => exact .inl ⟨rfl, rfl⟩
  | some pair =>
      rcases pair with ⟨responseId, d⟩
      cases hm : s.messageCallbacks.find? responseId with
      | some m =>
          refine .inr (.inr ⟨.message m.address, .message m.key m.value, d, ?_, by simp [hm], ?_⟩)
          · rw [store_entry_message, Option.map_eq_some_iff]
            exact ⟨m, NodeMap.deref_eq_some.mpr ⟨(NodeMap.find?_eq_some.mp hm).1, rfl⟩, rfl⟩
          · simp only [hm, Entry.callback]
      | none =>
          simp only [hm]
          split
          · cases htoken : packer.token.decode d with
            | none => exact .inl ⟨rfl, rfl⟩
            | some pair =>
                rcases pair with ⟨token, rest⟩
                cases hi : s.callbacks.find? (responseId, token) with
                | none => exact .inr (.inl ⟨by simp [hi], by simp [hi]⟩)
                | some i =>
                    refine .inr (.inr ⟨.request i.address, .request i.key i.value, rest, ?_,
                      by simp [hi], ?_⟩)
                    · rw [store_entry_request, Option.map_eq_some_iff]
                      exact ⟨i,
                        NodeMap.deref_eq_some.mpr ⟨(NodeMap.find?_eq_some.mp hi).1, rfl⟩, rfl⟩
                    · simp only [hi, Entry.callback]
          · exact .inr (.inl ⟨rfl, rfl⟩)

end CohesionIpc.Strmd
