import CohesionIpc.Model.Strmd.ClientCalls
import CohesionIpc.Model.Strmd.ServerCalls

/-! What the outbound channel reads while the session it has been called by goes on: each
session serializes every message into the same buffer. -/

namespace CohesionIpc.Strmd

open Transition SharedBuffer

variable {κ γ α : Type*}

/-! ## The client -/

/-- What a request serializes. -/
def HandleOp.message (packer : Packer) (s : ClientSession κ) : HandleOp κ → Option (List UInt8)
  | .request _ id payload .. | .requestMany _ id payload _ =>
      some (packer.id.encode id ++ packer.token.encode s.token ++ payload)
  | _ => none

namespace ClientCalls

/-- What the next step writes into the buffer. -/
def writes (packer : Packer) (s : ClientCalls κ) : ClientCall κ → Option (List UInt8)
  | .call op _ => op.message packer s.client.session
  | _ => none

variable {packer : Packer} {s t : ClientCalls κ} {e : ClientCall κ}

/-- The message of a request is what the session has serialized. -/
theorem buffer_of_message {client client' : Client κ} {op : HandleOp κ} {bytes : List UInt8}
    (hbytes : op.message packer client.session = some bytes)
    (hs : client.step packer op = some client') :
    op.issues = true ∧ client'.session.buffer = bytes := by
  cases op with
  | request h id payload responseId callback =>
      simp only [Client.step, Option.ite_none_right_eq_some, Option.some.injEq] at hs
      rcases hs with ⟨-, rfl⟩
      cases hbytes
      exact ⟨rfl, ClientSession.buffer_request _ _ _ _⟩
  | requestMany h id payload callback =>
      simp only [Client.step, Option.ite_none_right_eq_some, Option.some.injEq] at hs
      rcases hs with ⟨-, rfl⟩
      cases hbytes
      exact ⟨rfl, ClientSession.buffer_requestMany _ _ _ _⟩
  | subscribe => cases hbytes
  | release => cases hbytes
  | destroy => cases hbytes

theorem issues_of_message_none {client : Client κ} {op : HandleOp κ}
    (hbytes : op.message packer client.session = none) : op.issues = false := by
  cases op with
  | request => cases hbytes
  | requestMany => cases hbytes
  | subscribe => rfl
  | release => rfl
  | destroy => rfl

theorem lends_step (hs : s.step packer e = some t) :
    Lends buffer lent (writes packer) s e t := by
  cases e with
  | call op spare =>
      rcases step_call hs with ⟨client, hclient, rfl⟩
      refine ⟨fun hnone => ?_, fun bytes hbytes => ?_⟩
      · rw [issues_of_message_none hnone]
        exact ⟨rfl, List.Subset.refl _⟩
      · rcases buffer_of_message hbytes hclient with ⟨hissues, hbuffer⟩
        rw [hissues, hbuffer]
        exact ⟨spare, rfl, rfl⟩
  | message payload =>
      refine ⟨fun _ => ?_, fun bytes hbytes => by cases hbytes⟩
      simp only [step] at hs
      split at hs
      · cases hs
        exact ⟨rfl, List.Subset.refl _⟩
      · cases hs
        exact ⟨rfl, List.Subset.refl _⟩
      · rcases Option.map_eq_some_iff.mp hs with ⟨entry, -, rfl⟩
        exact ⟨rfl, List.Subset.refl _⟩
  | finish =>
      refine ⟨fun _ => ?_, fun bytes hbytes => by cases hbytes⟩
      simp only [step] at hs
      split at hs
      · cases hs
      · rename_i frame rest hstack
        cases hs
        refine ⟨rfl, ?_⟩
        rw [lent, lent, hstack]
        exact (List.Sublist.filterMap _ (List.sublist_cons_self _ _)).subset

end ClientCalls

/-! ## The server -/

namespace ServerCalls

/-- What the next step writes into the buffer. -/
def writes (packer : Packer) (s : ServerCalls κ γ α) : ServerCall κ γ α → Option (List UInt8)
  | .respond responseId value _ =>
      match s.stack with
      | .invocation _ _ r :: _ =>
          some (packer.id.encode responseId ++ (packer.token.encode r.token ++ value))
      | _ => none
  | .send messageId formatted _ => some (packer.id.encode messageId ++ formatted)
  | _ => none

variable [Inhabited α] {packer : Packer} {s t : ServerCalls κ γ α} {e : ServerCall κ γ α}

omit [Inhabited α] in
/-- An inbound message calls a handler at most; nothing is written. -/
theorem buffer_message (packer : Packer) (s : ServerCalls κ γ α) (payload : List UInt8) :
    (s.message packer payload).buffer = s.buffer ∧ (s.message packer payload).lent = s.lent := by
  simp only [message]
  split
  · exact ⟨rfl, rfl⟩
  · split
    · exact ⟨rfl, rfl⟩
    · split
      · exact ⟨rfl, rfl⟩
      · simp only [callHandler]
        split
        · exact ⟨rfl, rfl⟩
        · split <;> exact ⟨rfl, rfl⟩

theorem lends_step (hs : s.step packer e = some t) :
    Lends buffer lent (writes packer) s e t := by
  cases steps_of_step hs with
  | message payload =>
      refine ⟨fun _ => ?_, fun bytes hbytes => by cases hbytes⟩
      have hsame := buffer_message packer s payload
      exact ⟨hsame.1, hsame.2 ▸ List.Subset.refl _⟩
  | runTask hq => exact ⟨fun _ => ⟨rfl, List.Subset.refl _⟩, fun bytes hbytes => by cases hbytes⟩
  | @respond request body r rest hstack responseId value spare =>
      have hwrites : writes packer s (.respond responseId value spare) =
          some (packer.id.encode responseId ++ (packer.token.encode r.token ++ value)) := by
        simp only [writes, hstack]
      refine ⟨fun hnone => ?_, fun bytes hbytes => ?_⟩
      · rw [hwrites] at hnone
        cases hnone
      · rw [hwrites] at hbytes
        cases hbytes
        exact ⟨spare, rfl, rfl⟩
  | send messageId formatted spare =>
      refine ⟨fun hnone => (by cases hnone), fun bytes hbytes => ?_⟩
      cases hbytes
      exact ⟨spare, rfl, rfl⟩
  | defer hstack henabled continuation =>
      refine ⟨fun _ => ⟨rfl, ?_⟩, fun bytes hbytes => by cases hbytes⟩
      rw [lent, lent, hstack]
      exact List.Subset.refl _
  | deferFails hstack hdisabled continuation =>
      exact ⟨fun _ => ⟨rfl, List.Subset.refl _⟩, fun bytes hbytes => by cases hbytes⟩
  | addHandler requestId handler parameter =>
      exact ⟨fun _ => ⟨rfl, List.Subset.refl _⟩, fun bytes hbytes => by cases hbytes⟩
  | returns hstack =>
      refine ⟨fun _ => ⟨rfl, ?_⟩, fun bytes hbytes => by cases hbytes⟩
      rw [lent, lent, hstack]
      exact List.Subset.refl _
  | sent hstack =>
      refine ⟨fun _ => ⟨rfl, ?_⟩, fun bytes hbytes => by cases hbytes⟩
      rw [lent, lent, hstack]
      exact List.subset_cons_self _ _
  | throw hstack =>
      refine ⟨fun _ => ⟨rfl, ?_⟩, fun bytes hbytes => by cases hbytes⟩
      rw [lent, lent, hstack]
      exact (List.Sublist.filterMap _ (List.sublist_cons_self _ _)).subset

end ServerCalls

/-- For every nesting of calls, on the client and on the server: what each call of the
outbound channel has got stays what it was until that call returns exactly when every
message serialized in between stays in the block of the buffer and has the same bytes as all
of those, as far as both go. -/
theorem messages_intact_iff [Inhabited α] (packer : Packer) (apartment : Bool)
    {clientCalls : List (ClientCall κ)} {serverCalls : List (ServerCall κ γ α)}
    (hclient : (run (ClientCalls.step packer) .init clientCalls).isSome)
    (hserver : (run (ServerCalls.step packer) (.init apartment) serverCalls).isSome) :
    (Through (ClientCalls.step packer) (fun _ _ t => t.buffer.Intact t.lent) .init clientCalls ↔
      Along (ClientCalls.step packer) (Fits ClientCalls.buffer ClientCalls.lent
        (ClientCalls.writes packer)) .init clientCalls) ∧
    (Through (ServerCalls.step packer) (fun _ _ t => t.buffer.Intact t.lent) (.init apartment)
        serverCalls ↔
      Along (ServerCalls.step packer) (Fits ServerCalls.buffer ServerCalls.lent
        (ServerCalls.writes packer)) (.init apartment) serverCalls) :=
  ⟨through_intact_iff _ _ _ (fun _ _ _ hs => ClientCalls.lends_step hs) rfl hclient,
    through_intact_iff _ _ _ (fun _ _ _ hs => ServerCalls.lends_step hs) rfl hserver⟩

/-- Two requests one after the other. -/
def requestTwice : List (ClientCall ℕ) :=
  [.call (.request 0 1 [7] 5 10) [], .finish, .call (.request 1 1 [8] 5 11) []]

/-- A response, and the same bytes once more while it is read. -/
def respondTwice : List (ServerCall ℕ ℕ ℕ) :=
  [.addHandler 1 0 none, .message [2, 3], .respond 5 [7] [], .send 5 [3, 7] []]

theorem messages_intact_iff_twice :
    (Through (ClientCalls.step Packer.varint) (fun _ _ t => t.buffer.Intact t.lent) .init
        requestTwice ↔
      Along (ClientCalls.step Packer.varint) (Fits ClientCalls.buffer ClientCalls.lent
        (ClientCalls.writes Packer.varint)) .init requestTwice) ∧
    (Through (ServerCalls.step Packer.varint) (fun _ _ t => t.buffer.Intact t.lent) (.init true)
        respondTwice ↔
      Along (ServerCalls.step Packer.varint) (Fits ServerCalls.buffer ServerCalls.lent
        (ServerCalls.writes Packer.varint)) (.init true) respondTwice) :=
  messages_intact_iff Packer.varint true (by rfl) (by rfl)

/-- A request made while another one is being read. -/
def nestedRequest : List (ClientCall ℕ) :=
  [.call (.request 0 1 [7] 5 10) [], .call (.request 1 1 [8] 5 11) []]

/-- A response sent while another one is being read. -/
def nestedResponse : List (ServerCall ℕ ℕ ℕ) :=
  [.addHandler 1 0 none, .message [2, 3], .respond 5 [7] [], .message [2, 4], .respond 5 [8] []]

/-- The outer message is overwritten. -/
theorem nested_message_overwrites :
    ¬ Through (ClientCalls.step Packer.varint) (fun _ _ t => t.buffer.Intact t.lent) .init
        nestedRequest ∧
      ¬ Through (ServerCalls.step Packer.varint) (fun _ _ t => t.buffer.Intact t.lent)
        (.init true) nestedResponse := by
  constructor
  · intro h
    have hintact := ((h _ rfl).2 _ rfl).1
    exact absurd (hintact (⟨1, 3⟩, [2, 1, 7]) (by decide)).2 (by decide)
  · intro h
    have hintact := (((((h _ rfl).2 _ rfl).2 _ rfl).2 _ rfl).2 _ rfl).1
    exact absurd (hintact (⟨1, 3⟩, [10, 3, 7]) (by decide)).2 (by decide)

end CohesionIpc.Strmd
