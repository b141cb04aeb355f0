import CohesionIpc.Foundation.Simulation
import CohesionIpc.Model.Strmd.WiredExchange
import CohesionIpc.Verification.Strmd.Correlation
import CohesionIpc.Verification.Transport.RoundTrip

/-! The sessions over a socket are the sessions over channels of whole messages, as long as every
message has a length that the header can hold. -/

namespace CohesionIpc.Strmd

open Transition

variable {κ ε γ : Type*}

namespace WiredExchange

/-- The streams hold the frames of the messages that are in the channels. -/
structure Represents (s : WiredExchange κ γ) (t : Exchange κ γ) : Prop where
  client : s.client = t.client
  server : s.server = t.server
  queue : s.queue = t.queue.map Queued.task
  up : s.up.Carries (framing .bigEndian) (t.toServer.map Issued.payload)
  down : s.down.Carries (framing .bigEndian) (t.toClient.map Reply.payload)
  size : s.size.length = 4
  requests : s.requests = t.requests.length
  calls : s.calls = t.calls.map fun c => (c.callback, c.rest)

variable {hosts : Hosts} {code : ServerCode ε γ} {packer : Packer} {s s' : WiredExchange κ γ}
  {t t' : Exchange κ γ} {op : WiredOp κ ε}

def Short (s : WiredExchange κ γ) : Prop := ∀ m ∈ s.written, m.length < 2 ^ 32

/-! ## One message -/

theorem ready_iff {l : Link UInt8} :
    ready l ↔ ∃ m rest, (framing .bigEndian).next? l.arrived = some (m, rest) := by
  rw [ready, Option.isSome_iff_exists]
  exact Prod.exists

theorem deliverToServer_of_frame {m rest : List UInt8}
    (hnext : (framing .bigEndian).next? s.up.arrived = some (m, rest)) (unset : UInt32) (e : ε) :
    s.deliverToServer hosts code packer unset e =
      some { ({ s with up.arrived := rest, serverBuffer := m } : WiredExchange κ γ).handled hosts
        (s.server.message code packer e m) with
          serving := !(s.server.message code packer e m).raised } := by
  obtain ⟨hcall, hbuffer, hstream, -⟩ := Sockets.handleSession_of_frame hosts.server .ofList unset
    s.serverBuffer (s := s.up.arrived) hnext
  have hrest : (Sockets.handleSession hosts.server .ofList unset s.serverBuffer
      s.up.arrived).stream = rest := hstream
  simp only [deliverToServer, hcall, hbuffer, hrest]

variable (hosts packer) in
theorem deliverToClient_of_frame {m rest : List UInt8} (hsize : s.size.length = 4)
    (hnext : (framing .bigEndian).next? s.down.arrived = some (m, rest)) :
    ∃ size : List UInt8, size.length = 4 ∧ s.deliverToClient hosts packer =
      let s' := { s with size := size, buffer := m, down.arrived := rest }
      match s.client.session.message packer m with
      | .raised => some { s' with clientAlive := false }
      | .ignored => some s'
      | .call callback d => some { s' with calls := s.calls ++ [(callback, d)] } := by
  obtain ⟨r, hturn, hlength, hbuffer, hstream⟩ := readMessagesTurn_of_frame hosts.client .ofList
    true (r := ⟨s.size, s.buffer, s.down.arrived⟩) hsize hnext
  refine ⟨r.size, hlength, ?_⟩
  have hrest : r.stream = rest := hstream
  rw [deliverToClient, hturn, Option.map_some, hbuffer, hrest]
  cases s.client.session.message packer m <;> rfl

/-! ## Both machines together -/

theorem represents_init (hosts : Hosts) (apartment : Bool) (size : UInt32) :
    Represents (init hosts apartment size : WiredExchange κ γ) (.init apartment) where
  client := rfl
  server := rfl
  queue := rfl
  up := Link.carries_empty _
  down := Link.carries_empty _
  size := ByteRepresentation.length_bytes _ _
  requests := rfl
  calls := rfl

theorem Represents.issue (h : Represents s t) {client : Client κ}
    (hshort : client.session.buffer.length < 2 ^ 32) (callbacks : List (Int32 × κ)) :
    Represents { s with
        client := client
        up := s.up.write (Sockets.ClientSession.message hosts.client client.session.buffer)
        requests := s.requests + 1
        written := s.written ++ [client.session.buffer] }
      { t with
        client := client
        toServer := t.toServer ++ [⟨client.session.buffer, t.requests.length⟩]
        requests := t.requests ++ [callbacks] } := by
  refine { h with client := rfl, up := ?_, requests := ?_ }
  · have hlen : ∀ m ∈ [client.session.buffer], m.length < 2 ^ 32 := by simpa using hshort
    have hnew := h.up.write hlen
    rw [List.flatMap_singleton,
      ← Sockets.ClientSession.message_eq_frame hosts.client hshort] at hnew
    rw [List.map_append, List.map_singleton]
    exact hnew
  · rw [List.length_append, List.length_singleton, h.requests]

theorem payloads_ofSent (n k : ℕ) (sent : List Sent) :
    (Reply.ofSent n k sent).map Reply.payload = sent.map Sent.payload := by
  induction sent generalizing k with
  | nil => rfl
  | cons x xs ih => rw [Reply.ofSent, List.map_cons, ih, List.map_cons]

variable (hosts) in
theorem Represents.handled (h : Represents s t) {done : Handled γ}
    (hshort : ∀ x ∈ done.sent, x.payload.length < 2 ^ 32) (n : ℕ) :
    Represents (s.handled hosts done) (t.handled n done) := by
  refine { h with server := rfl, queue := ?_, down := ?_ }
  · simp only [WiredExchange.handled, Exchange.handled, h.queue]
    cases done.scheduled <;> simp
  · have hlen : ∀ m ∈ done.sent.map Sent.payload, m.length < 2 ^ 32 := by simpa using hshort
    have hnew := h.down.write hlen
    rw [← flatMap_eq_flatMap_frame hlen fun _ =>
      Sockets.SocketHandler.message_eq_frame hosts.server, List.flatMap_map] at hnew
    simp only [WiredExchange.handled, Exchange.handled, List.map_append, payloads_ofSent]
    exact hnew

variable (hosts packer) in
theorem Represents.deliverToClient (h : Represents s t) {m : Reply} {rest : List Reply}
    (hm : t.toClient = m :: rest) {stream : List UInt8}
    (hnext : (framing .bigEndian).next? s.down.arrived = some (m.payload, stream)) :
    ∃ s', s.deliverToClient hosts packer = some s' ∧
      Represents s' { t with
        toClient := rest
        calls :=
          match t.client.session.message packer m.payload with
          | .call callback d => t.calls ++ [⟨callback, d, m⟩]
          | _ => t.calls } ∧
      s'.serving = s.serving ∧
      (s'.clientAlive = s.clientAlive ∨ t.client.session.message packer m.payload = .raised) := by
  obtain ⟨size, hsize, hdone⟩ := deliverToClient_of_frame hosts packer h.size hnext
  obtain ⟨ms, hms, hcarries⟩ := h.down.receive hnext
  rw [hm, List.map_cons] at hms
  obtain ⟨-, hms⟩ := List.cons.inj hms
  have hdispatch : s.client.session.message packer m.payload =
      t.client.session.message packer m.payload := by rw [h.client]
  rw [hdone, hdispatch]
  cases t.client.session.message packer m.payload with
  | raised => exact ⟨_, rfl, { h with down := hms ▸ hcarries, size := hsize }, rfl, .inr rfl⟩
  | ignored => exact ⟨_, rfl, { h with down := hms ▸ hcarries, size := hsize }, rfl, .inl rfl⟩
  | call callback d =>
      refine ⟨_, rfl, { h with down := hms ▸ hcarries, size := hsize, calls := ?_ }, rfl, .inl rfl⟩
      simp only [List.map_append, h.calls, List.map_singleton]

/-- The stream opens with the message at the head of the channel. -/
theorem head_of_ready {l : Link UInt8} {α : Type*} {f : α → List UInt8} {channel : List α}
    (hcarries : l.Carries (framing .bigEndian) (channel.map f)) (hready : ready l) :
    ∃ m rest stream, channel = m :: rest ∧
      (framing .bigEndian).next? l.arrived = some (f m, stream) := by
  obtain ⟨p, stream, hnext⟩ := ready_iff.mp hready
  obtain ⟨ms, hms, -⟩ := hcarries.receive hnext
  cases channel with
  | nil => cases hms
  | cons m rest =>
      obtain ⟨rfl, -⟩ := List.cons.inj hms
      exact ⟨m, rest, stream, rfl, hnext⟩

variable (hosts) in
theorem Represents.deliverToServer (h : Represents s t) {m : Issued} {rest : List Issued}
    (hm : t.toServer = m :: rest) {stream : List UInt8}
    (hnext : (framing .bigEndian).next? s.up.arrived = some (m.payload, stream)) {e : ε}
    (hshort : ∀ x ∈ (t.server.message code packer e m.payload).sent,
      x.payload.length < 2 ^ 32) :
    Represents { ({ s with up.arrived := stream, serverBuffer := m.payload } :
        WiredExchange κ γ).handled hosts (t.server.message code packer e m.payload) with
          serving := !(t.server.message code packer e m.payload).raised }
      (({ t with toServer := rest } : Exchange κ γ).handled m.request
        (t.server.message code packer e m.payload)) := by
  obtain ⟨ms, hms, hcarries⟩ := h.up.receive hnext
  rw [hm, List.map_cons] at hms
  obtain ⟨-, rfl⟩ := List.cons.inj hms
  have hpopped : Represents { s with up.arrived := stream, serverBuffer := m.payload }
      ({ t with toServer := rest } : Exchange κ γ) := { h with up := hcarries }
  have hdone := hpopped.handled hosts hshort m.request
  exact { hdone with client := hdone.client }

variable (hosts) in
theorem Represents.runContinuation (h : Represents s t) (q : Queued γ) (rest : List (Queued γ))
    {e : ε}
    (hshort : ∀ x ∈ (t.server.runTask code packer e q.task).sent, x.payload.length < 2 ^ 32) :
    Represents (({ s with queue := rest.map Queued.task } : WiredExchange κ γ).handled hosts
        (t.server.runTask code packer e q.task))
      (({ t with queue := rest } : Exchange κ γ).handled q.request
        (t.server.runTask code packer e q.task)) := by
  apply Represents.handled hosts _ hshort
  exact { h with queue := rfl }

/-! ## Steps over the wire -/

variable (hosts) in
theorem short_of_written {done : Handled γ} (h : (s.handled hosts done).Short) :
    ∀ x ∈ done.sent, x.payload.length < 2 ^ 32 := by
  intro x hx
  exact h _ (List.mem_append_right _ (List.mem_map_of_mem hx))

theorem issue_eq_some {op : HandleOp κ} : s.issue hosts packer op = some s' ↔
    ∃ client, s.client.step packer op = some client ∧ s' = { s with
      client := client
      up := s.up.write (Sockets.ClientSession.message hosts.client client.session.buffer)
      requests := s.requests + 1
      written := s.written ++ [client.session.buffer] } := by
  rw [issue, Option.map_eq_some_iff]
  exact exists_congr fun client => and_congr_right fun _ => eq_comm

theorem Represents.step_issue (h : Represents s t) {op : HandleOp κ}
    (hs : s.issue hosts packer op = some s') (hshort : s'.Short) (callbacks : List (Int32 × κ)) :
    ∃ t', t.issue packer op callbacks = some t' ∧ Represents s' t' := by
  obtain ⟨client, hclient, rfl⟩ := issue_eq_some.mp hs
  rw [h.client] at hclient
  rw [Exchange.issue, hclient]
  refine ⟨_, rfl, h.issue (hshort _ ?_) callbacks⟩
  exact List.mem_append_right _ List.mem_cons_self

/-- Every step over the wire is the step of the same name, or a transfer that no session sees. -/
theorem simulates : Simulates (step hosts code packer) (Exchange.step code packer)
    (WiredOp.exchangeOp? : WiredOp κ ε → Option (ExchangeOp κ ε))
    (fun s op => ∀ s', s.step hosts code packer op = some s' →
      s'.Short) Represents := by
  constructor
  · intro s t op s' h _ hlabel hs
    cases op with
    | transferUp n =>
        cases hs
        exact { h with up := h.up.transfer n }
    | transferDown n =>
        cases hs
        exact { h with down := h.down.transfer n }
    | _ => cases hlabel
  · intro s t op b s' h hshort hlabel hs
    replace hshort := hshort s' hs
    cases op with
    | transferUp n => cases hlabel
    | transferDown n => cases hlabel
    | request id payload responseId callback =>
        cases hlabel
        rw [step, Option.ite_none_right_eq_some, h.requests] at hs
        exact h.step_issue hs.2 hshort _
    | requestMany id payload callback =>
        cases hlabel
        rw [step, Option.ite_none_right_eq_some, h.requests] at hs
        obtain ⟨⟨-, hnodup⟩, hs⟩ := hs
        rw [Exchange.step, if_pos hnodup]
        exact h.step_issue hs hshort _
    | release n =>
        cases hlabel
        rw [step, Option.ite_none_right_eq_some, Option.map_eq_some_iff, h.client] at hs
        obtain ⟨-, client, hclient, rfl⟩ := hs
        rw [Exchange.step, hclient]
        exact ⟨_, rfl, { h with client := rfl }⟩
    | deliverToServer unset e =>
        cases hlabel
        rw [step, Option.ite_none_right_eq_some] at hs
        obtain ⟨⟨-, hready⟩, hs⟩ := hs
        obtain ⟨m, rest, stream, hm, hnext⟩ := head_of_ready h.up hready
        rw [deliverToServer_of_frame hnext, Option.some.injEq, h.server] at hs
        rw [← hs] at hshort ⊢
        simp only [Exchange.step, hm]
        exact ⟨_, rfl, h.deliverToServer hosts hm hnext (short_of_written hosts hshort)⟩
    | runContinuation e =>
        cases hlabel
        simp only [step, h.queue] at hs
        cases hq : t.queue with
        | nil => simp [hq] at hs
        | cons q rest =>
            simp only [hq, List.map_cons, Option.some.injEq, h.server] at hs
            rw [← hs] at hshort ⊢
            simp only [Exchange.step, hq]
            exact ⟨_, rfl, h.runContinuation hosts q rest (short_of_written hosts hshort)⟩
    | deliverToClient =>
        cases hlabel
        rw [step, Option.ite_none_right_eq_some] at hs
        obtain ⟨⟨-, hready⟩, hs⟩ := hs
        obtain ⟨m, rest, stream, hm, hnext⟩ := head_of_ready h.down hready
        obtain ⟨s'', hs'', hrep, -, -⟩ := h.deliverToClient hosts packer hm
          hnext
        cases hs.symm.trans hs''
        simp only [Exchange.step, hm]
        exact ⟨_, rfl, hrep⟩

/-- What a step leaves as it is. -/
theorem step_frame (hs : s.step hosts code packer op = some s') :
    s.written <+: s'.written ∧ s'.requests = s.requests + (if op.issues then 1 else 0) ∧
      (op ≠ .deliverToClient → s'.clientAlive = s.clientAlive) ∧
      (op.serves = false → s'.serving = s.serving) := by
  cases op with
  | transferUp n =>
      cases hs
      exact ⟨List.prefix_rfl, rfl, fun _ => rfl, fun _ => rfl⟩
  | transferDown n =>
      cases hs
      exact ⟨List.prefix_rfl, rfl, fun _ => rfl, fun _ => rfl⟩
  | request id payload responseId callback =>
      rw [step, Option.ite_none_right_eq_some, issue_eq_some] at hs
      obtain ⟨-, client, -, rfl⟩ := hs
      exact ⟨List.prefix_append _ _, rfl, fun _ => rfl, fun _ => rfl⟩
  | requestMany id payload callback =>
      rw [step, Option.ite_none_right_eq_some, issue_eq_some] at hs
      obtain ⟨-, client, -, rfl⟩ := hs
      exact ⟨List.prefix_append _ _, rfl, fun _ => rfl, fun _ => rfl⟩
  | release n =>
      rw [step, Option.ite_none_right_eq_some, Option.map_eq_some_iff] at hs
      obtain ⟨-, client, -, rfl⟩ := hs
      exact ⟨List.prefix_rfl, rfl, fun _ => rfl, fun _ => rfl⟩
  | deliverToServer unset e =>
      rw [step, Option.ite_none_right_eq_some] at hs
      obtain ⟨⟨-, hready⟩, hs⟩ := hs
      obtain ⟨m, stream, hnext⟩ := ready_iff.mp hready
      rw [deliverToServer_of_frame hnext, Option.some.injEq] at hs
      rw [← hs]
      exact ⟨List.prefix_append _ _, rfl, fun _ => rfl, fun h => by cases h⟩
  | runContinuation e =>
      cases hqueue : s.queue with
      | nil => simp [step, hqueue] at hs
      | cons task rest =>
          simp only [step, hqueue, Option.some.injEq] at hs
          rw [← hs]
          exact ⟨List.prefix_append _ _, rfl, fun _ => rfl, fun _ => rfl⟩
  | deliverToClient =>
      rw [step, Option.ite_none_right_eq_some, deliverToClient, Option.map_eq_some_iff] at hs
      obtain ⟨-, r, -, rfl⟩ := hs
      split <;> exact ⟨List.prefix_rfl, rfl, fun h => absurd rfl h, fun _ => rfl⟩

/-! ## Both ends stay up -/

/-- The messages in the channels are those of the sessions, so that each can be decoded. -/
structure Joined (packer : Packer) (s : WiredExchange κ γ) (t : Exchange κ γ) : Prop
    extends Represents s t where
  inv : t.Inv packer
  clientAlive : s.clientAlive = true

theorem joined_init (hosts : Hosts) (packer : Packer) (apartment : Bool) (size : UInt32) :
    Joined packer (init hosts apartment size : WiredExchange κ γ) (.init apartment) :=
  ⟨represents_init hosts apartment size, Exchange.inv_init packer apartment, rfl⟩

/-- The client can decode whatever the server has sent. -/
theorem Joined.clientAlive_step (h : Joined packer s t)
    (hs : s.step hosts code packer op = some s') : s'.clientAlive = true := by
  by_cases hop : op = .deliverToClient
  · rw [hop, step, Option.ite_none_right_eq_some] at hs
    obtain ⟨⟨-, hready⟩, hs⟩ := hs
    obtain ⟨m, rest, stream, hm, hnext⟩ := head_of_ready h.down hready
    obtain ⟨s'', hs'', -, -, halive⟩ := h.deliverToClient hosts packer hm
      hnext
    cases hs.symm.trans hs''
    rcases halive with halive | hraised
    · exact halive.trans h.clientAlive
    · rw [h.inv.dispatch (hm ▸ List.mem_cons_self)] at hraised
      split at hraised <;> cases hraised
  · exact ((step_frame hs).2.2.1 hop).trans h.clientAlive

/-- The handler that a delivery runs throws. -/
def raises (code : ServerCode ε γ) (packer : Packer) (t : Exchange κ γ) :
    ExchangeOp κ ε → Bool
  | .deliverToServer e =>
      match t.toServer with
      | [] => false
      | m :: _ => (t.server.message code packer e m.payload).raised
  | _ => false

/-- A delivery runs the handler that is registered for the message at the head of the channel, and
the handler throws. -/
def HandlerThrows (code : ServerCode ε γ) (packer : Packer) (t : Exchange κ γ)
    (b : ExchangeOp κ ε) : Prop :=
  ∃ e m rest id token d h, b = .deliverToServer e ∧ t.toServer = m :: rest ∧
    m.payload = packer.id.encode id ++ (packer.token.encode token ++ d) ∧
    code.handlers id = some h ∧
    ((h e d).run packer t.server ⟨token, t.server.apartment, none⟩).raised = true

theorem raised_message (e : ε) (session : ServerSession) (id : Int32) (token : UInt64)
    (d : List UInt8) :
    (session.message code packer e
      (packer.id.encode id ++ (packer.token.encode token ++ d))).raised = true ↔
      ∃ h, code.handlers id = some h ∧
        ((h e d).run packer session ⟨token, session.apartment, none⟩).raised = true := by
  simp only [ServerSession.message, packer.id.decode_encode, packer.token.decode_encode]
  cases code.handlers id with
  | none => simp
  | some h => simp [Ran.schedule]

/-- The server can decode whatever the client has sent, so that no exception is its own. -/
theorem raises_iff (hI : t.Inv packer) {b : ExchangeOp κ ε} :
    raises code packer t b = true ↔ HandlerThrows code packer t b := by
  constructor
  · intro hraises
    cases b with
    | deliverToServer e =>
        cases hm : t.toServer with
        | nil => simp [raises, hm] at hraises
        | cons m rest =>
            obtain ⟨-, id, d, hpayload⟩ := hI.toServer m (hm ▸ List.mem_cons_self)
            simp only [raises, hm] at hraises
            rw [hpayload, raised_message] at hraises
            obtain ⟨h, hhandler, hraised⟩ := hraises
            exact ⟨e, m, rest, id, _, d, h, rfl, hm, hpayload, hhandler, hraised⟩
    | request | requestMany | release | runContinuation | deliverToClient => cases hraises
  · rintro ⟨e, m, rest, id, token, d, h, rfl, hm, hpayload, hhandler, hraised⟩
    simp only [raises, hm]
    rw [hpayload, raised_message]
    exact ⟨h, hhandler, hraised⟩

/-- The loop of the server ends with an exception and with nothing else. -/
theorem Represents.serving_step (h : Represents s t) {b : ExchangeOp κ ε}
    (hlabel : op.exchangeOp? = some b) (hs : s.step hosts code packer op = some s') :
    s'.serving = (s.serving && !raises code packer t b) := by
  cases op with
  | deliverToServer unset e =>
      cases hlabel
      rw [step, Option.ite_none_right_eq_some] at hs
      obtain ⟨⟨hserving, hready⟩, hs⟩ := hs
      obtain ⟨m, rest, stream, hm, hnext⟩ := head_of_ready h.up hready
      rw [deliverToServer_of_frame hnext, Option.some.injEq, h.server] at hs
      rw [← hs, hserving, Bool.true_and]
      simp only [raises, hm]
  | transferUp n => cases hlabel
  | transferDown n => cases hlabel
  | _ =>
      cases hlabel
      rw [(step_frame hs).2.2.2 rfl]
      exact (Bool.and_true _).symm

theorem Joined.serving_step (h : Joined packer s t) {b : ExchangeOp κ ε}
    (hlabel : op.exchangeOp? = some b) (hs : s.step hosts code packer op = some s') :
    s'.serving = true ↔ s.serving = true ∧ ¬ HandlerThrows code packer t b := by
  rw [h.toRepresents.serving_step hlabel hs, Bool.and_eq_true, Bool.not_eq_true',
    ← Bool.not_eq_true, raises_iff h.inv]

theorem issues_of_exchangeOp? {b : ExchangeOp κ ε} (h : op.exchangeOp? = some b) :
    b.issues = op.issues := by
  cases op <;> cases h <;> rfl

theorem serves_of_exchangeOp?_eq_none (h : op.exchangeOp? = none) :
    op.issues = false ∧ op.serves = false ∧ op ≠ .deliverToClient := by
  cases op with
  | transferUp n => exact ⟨rfl, rfl, fun heq => by cases heq⟩
  | transferDown n => exact ⟨rfl, rfl, fun heq => by cases heq⟩
  | _ => cases h

theorem joined_simulates : Simulates (step hosts code packer) (Exchange.step code packer)
    (WiredOp.exchangeOp? : WiredOp κ ε → Option (ExchangeOp κ ε)) (fun s op =>
      (∀ s', s.step hosts code packer op = some s' → s'.Short) ∧
        (op.issues → s.requests + 1 < 2 ^ 64)) (Joined packer) := by
  constructor
  · intro s t op s' h hP hlabel hs
    have hrep := simulates.silent s t op s' h.toRepresents hP.1 hlabel hs
    exact ⟨hrep, h.inv, h.clientAlive_step hs⟩
  · intro s t op b s' h hP hlabel hs
    obtain ⟨t', ht, hrep⟩ := simulates.visible s t op b s' h.toRepresents hP.1 hlabel hs
    refine ⟨t', ht, hrep, ?_, h.clientAlive_step hs⟩
    apply Exchange.inv_step h.inv _ ht
    rw [issues_of_exchangeOp? hlabel, ← h.requests]
    exact hP.2

/-! ## Runs over the wire -/

theorem short_along {s : WiredExchange κ γ} {ops : List (WiredOp κ ε)}
    (hrun : run (step hosts code packer) s ops = some s') (hshort : s'.Short) :
    Along (step hosts code packer)
      (fun s op => ∀ s', s.step hosts code packer op = some s' → s'.Short) s ops := by
  apply (along_of_end (Q := Short) _ hrun hshort).2
  intro s op s' hs h m hm
  exact h m ((step_frame hs).1.subset hm)

theorem requests_along {s : WiredExchange κ γ} {ops : List (WiredOp κ ε)}
    (hcount : s.requests + ops.countP WiredOp.issues < 2 ^ 64) :
    Along (step hosts code packer) (fun s op => op.issues → s.requests + 1 < 2 ^ 64) s ops :=
  along_count_lt (fun s : WiredExchange κ γ => s.requests) (fun _ _ _ hs => (step_frame hs).2.1)
    hcount

/-- The exchange makes the step `b` over a wire: the message counter does not wrap, every
message has a length that a header can hold, and no handler throws. -/
structure Fits (code : ServerCode ε γ) (packer : Packer) (t : Exchange κ γ)
    (b : ExchangeOp κ ε) : Prop where
  request : b.issues → t.requests.length + 1 < 2 ^ 64
  short : ∀ t', t.step code packer b = some t' →
    (∀ m ∈ t'.toServer, m.payload.length < 2 ^ 32) ∧ ∀ m ∈ t'.toClient, m.payload.length < 2 ^ 32
  quiet : raises code packer t b = false

theorem Fits.of_step {b : ExchangeOp κ ε} (ht : t.step code packer b = some t')
    (hrequest : t.requests.length + 1 < 2 ^ 64)
    (hserver : ∀ m ∈ t'.toServer, m.payload.length < 2 ^ 32)
    (hclient : ∀ m ∈ t'.toClient, m.payload.length < 2 ^ 32)
    (hquiet : raises code packer t b = false) : Fits code packer t b := by
  refine ⟨fun _ => hrequest, ?_, hquiet⟩
  intro u hu
  cases ht.symm.trans hu
  exact ⟨hserver, hclient⟩

variable (hosts) in
theorem Represents.realise_issue (h : Represents s t) {op : HandleOp κ}
    {callbacks : List (Int32 × κ)} (ht : t.issue packer op callbacks = some t')
    (hshort : ∀ m ∈ t'.toServer, m.payload.length < 2 ^ 32) :
    ∃ s', s.issue hosts packer op = some s' ∧ Represents s' t' ∧
      s'.clientAlive = s.clientAlive ∧ s'.serving = s.serving := by
  obtain ⟨client, hclient, rfl⟩ := Option.map_eq_some_iff.mp ht
  have hlen : client.session.buffer.length < 2 ^ 32 :=
    hshort ⟨client.session.buffer, t.requests.length⟩ (List.mem_append_right _ List.mem_cons_self)
  rw [← h.client] at hclient
  exact ⟨_, issue_eq_some.mpr ⟨client, hclient, rfl⟩, h.issue hlen callbacks, rfl, rfl⟩

theorem short_of_replies {n k : ℕ} {sent : List Sent} {replies : List Reply}
    (h : ∀ m ∈ replies ++ Reply.ofSent n k sent, m.payload.length < 2 ^ 32) :
    ∀ x ∈ sent, x.payload.length < 2 ^ 32 := by
  intro x hx
  have hmem : x.payload ∈ (Reply.ofSent n k sent).map Reply.payload := by
    rw [payloads_ofSent]
    exact List.mem_map_of_mem hx
  obtain ⟨m, hm, heq⟩ := List.mem_map.mp hmem
  rw [← heq]
  exact h m (List.mem_append_right _ hm)

variable (hosts) in
theorem Represents.realise_deliverToServer (h : Represents s t) (halive : s.serving = true)
    {m : Issued} {rest : List Issued} (hm : t.toServer = m :: rest) (e : ε)
    (hshort : ∀ x ∈ (t.server.message code packer e m.payload).sent,
      x.payload.length < 2 ^ 32) :
    ∃ s', run (step hosts code packer) s
        [.transferUp s.up.inFlight.length, .deliverToServer 0 e] = some s' ∧
      Represents s' (({ t with toServer := rest } : Exchange κ γ).handled m.request
        (t.server.message code packer e m.payload)) ∧
      s'.clientAlive = s.clientAlive ∧
      s'.serving = !(t.server.message code packer e m.payload).raised := by
  have hcarries := h.up
  rw [hm, List.map_cons] at hcarries
  obtain ⟨stream, hnext⟩ := hcarries.come
  have hmoved : Represents { s with up := s.up.transfer s.up.inFlight.length } t :=
    { h with up := h.up.transfer _ }
  have hready : ready (s.up.transfer s.up.inFlight.length) := ready_iff.mpr ⟨_, _, hnext⟩
  have hmessage : t.server.message code packer e m.payload =
      s.server.message code packer e m.payload := by rw [h.server]
  refine ⟨_, ?_, hmoved.deliverToServer hosts hm hnext hshort, rfl, rfl⟩
  rw [run_cons, step, Option.bind_some, run_cons, step, if_pos ⟨halive, hready⟩,
    deliverToServer_of_frame hnext, hmessage]
  rfl

variable (hosts) in
theorem Represents.realise_runContinuation (h : Represents s t) {q : Queued γ}
    {rest : List (Queued γ)} (hq : t.queue = q :: rest) (e : ε)
    (hshort : ∀ x ∈ (t.server.runTask code packer e q.task).sent, x.payload.length < 2 ^ 32) :
    ∃ s', s.step hosts code packer (.runContinuation e) = some s' ∧
      Represents s' (({ t with queue := rest } : Exchange κ γ).handled q.request
        (t.server.runTask code packer e q.task)) ∧
      s'.clientAlive = s.clientAlive ∧ s'.serving = s.serving := by
  have hqueue : s.queue = q.task :: rest.map Queued.task := by rw [h.queue, hq, List.map_cons]
  have hserver := h.server
  refine ⟨_, ?_, h.runContinuation hosts q rest hshort, rfl, rfl⟩
  simp only [step, ← hserver, hqueue]

variable (hosts code) in
theorem Represents.realise_deliverToClient (h : Represents s t) (hI : t.Inv packer)
    (halive : s.clientAlive = true) {m : Reply} {rest : List Reply} (hm : t.toClient = m :: rest) :
    ∃ s', run (step hosts code packer) s
        [.transferDown s.down.inFlight.length, .deliverToClient] = some s' ∧
      Represents s' { t with
        toClient := rest
        calls :=
          match t.client.session.message packer m.payload with
          | .call callback d => t.calls ++ [⟨callback, d, m⟩]
          | _ => t.calls } ∧
      s'.clientAlive = true ∧ s'.serving = s.serving := by
  have hcarries := h.down
  rw [hm, List.map_cons] at hcarries
  obtain ⟨stream, hnext⟩ := hcarries.come
  have hmoved : Represents { s with down := s.down.transfer s.down.inFlight.length } t :=
    { h with down := h.down.transfer _ }
  have hready : ready (s.down.transfer s.down.inFlight.length) := ready_iff.mpr ⟨_, _, hnext⟩
  obtain ⟨s', hs, h', hserver, hclient⟩ := hmoved.deliverToClient hosts packer hm hnext
  refine ⟨s', ?_, h', ?_, hserver⟩
  · rw [run_cons, step, Option.bind_some, run_cons, step, if_pos ⟨halive, hready⟩, hs]
    rfl
  · rcases hclient with hclient | hraised
    · exact hclient.trans halive
    · rw [hI.dispatch (hm ▸ List.mem_cons_self)] at hraised
      split at hraised <;> cases hraised

/-- A step over channels of whole messages is taken over the wire once the frame it needs has
come. -/
theorem realises : Realises (step hosts code packer) (Exchange.step code packer)
    (WiredOp.exchangeOp? : WiredOp κ ε → Option (ExchangeOp κ ε)) (Fits code packer)
    (fun s t => Represents s t ∧ t.Inv packer ∧ s.clientAlive = true ∧ s.serving = true) := by
  intro s t b t' ⟨h, hI, hclient, hserver⟩ hfits ht
  have hI' : t'.Inv packer := Exchange.inv_step hI hfits.request ht
  have hshort := hfits.short t' ht
  have hquiet := hfits.quiet
  cases b with
  | request id payload responseId callback =>
      obtain ⟨s', hs, h', hc, hsv⟩ := h.realise_issue hosts ht hshort.1
      refine ⟨[.request id payload responseId callback], s', rfl, ?_, h', hI', hc.trans hclient,
        hsv.trans hserver⟩
      rw [run_cons, step, if_pos hclient, h.requests, hs]
      rfl
  | requestMany id payload callback =>
      rw [Exchange.step, Option.ite_none_right_eq_some] at ht
      obtain ⟨hnodup, ht⟩ := ht
      obtain ⟨s', hs, h', hc, hsv⟩ := h.realise_issue hosts ht hshort.1
      refine ⟨[.requestMany id payload callback], s', rfl, ?_, h', hI', hc.trans hclient,
        hsv.trans hserver⟩
      rw [run_cons, step, if_pos ⟨hclient, hnodup⟩, h.requests, hs]
      rfl
  | release n =>
      rw [Exchange.step, Option.map_eq_some_iff] at ht
      obtain ⟨client, hrelease, rfl⟩ := ht
      rw [← h.client] at hrelease
      refine ⟨[.release n], { s with client := client }, rfl, ?_, { h with client := rfl }, hI',
        hclient, hserver⟩
      rw [run_cons, step, if_pos hclient, hrelease]
      rfl
  | deliverToServer e =>
      cases hm : t.toServer with
      | nil => simp [Exchange.step, hm] at ht
      | cons m rest =>
          simp only [Exchange.step, hm, Option.some.injEq] at ht
          simp only [raises, hm] at hquiet
          subst ht
          obtain ⟨s', hrun, h', hc, hsv⟩ := h.realise_deliverToServer hosts hserver hm e
            (short_of_replies hshort.2)
          exact ⟨_, s', rfl, hrun, h', hI', hc.trans hclient, by rw [hsv, hquiet]; rfl⟩
  | runContinuation e =>
      cases hq : t.queue with
      | nil => simp [Exchange.step, hq] at ht
      | cons q rest =>
          simp only [Exchange.step, hq, Option.some.injEq] at ht
          subst ht
          obtain ⟨s', hs, h', hc, hsv⟩ := h.realise_runContinuation hosts hq e
            (short_of_replies hshort.2)
          refine ⟨[.runContinuation e], s', rfl, ?_, h', hI', hc.trans hclient,
            hsv.trans hserver⟩
          rw [run_cons, hs]
          rfl
  | deliverToClient =>
      cases hm : t.toClient with
      | nil => simp [Exchange.step, hm] at ht
      | cons m rest =>
          simp only [Exchange.step, hm, Option.some.injEq] at ht
          subst ht
          obtain ⟨s', hrun, h', hc, hsv⟩ := h.realise_deliverToClient hosts code hI hclient hm
          exact ⟨_, s', rfl, hrun, h', hI', hc, hsv.trans hserver⟩

end WiredExchange

/-- However the bytes of both streams are cut into portions and interleaved with the calls, a run
over the wire whose messages are short is a run over channels of whole messages. -/
theorem wire_refines_exchange (hosts : Hosts) (code : ServerCode ε γ) (packer : Packer)
    (apartment : Bool) (size : UInt32) {ops : List (WiredOp κ ε)} {s : WiredExchange κ γ}
    (hrun : run (WiredExchange.step hosts code packer) (.init hosts apartment size) ops = some s)
    (hshort : ∀ m ∈ s.written, m.length < 2 ^ 32) :
    ∃ t, run (Exchange.step code packer) (.init apartment) (ops.filterMap WiredOp.exchangeOp?) =
      some t ∧ s.Represents t :=
  WiredExchange.simulates.run (WiredExchange.represents_init hosts apartment size)
    (WiredExchange.short_along hrun hshort) hrun

/-- Between hosts of different byte orders: two requests, the first of which comes in three
portions, and a handle that is released after the first response. -/
def twoRequestsOverWire : List (WiredOp ℕ Unit) :=
  [.requestMany 1 [41] [(5, 100), (6, 200)], .transferUp 3, .request 1 [42] 6 300, .transferUp 2,
    .transferUp 9, .deliverToServer 7 (), .deliverToServer 7 (), .transferDown 8, .deliverToClient,
    .release 0, .runContinuation (), .transferDown 20, .runContinuation (), .deliverToClient]

theorem wire_refines_exchange_two_requests :
    ∃ s, run (WiredExchange.step ⟨.littleEndian, .bigEndian⟩ answersTwice Packer.varint)
        (.init ⟨.littleEndian, .bigEndian⟩ true 7) twoRequestsOverWire = some s ∧
      ∃ t, run (Exchange.step answersTwice Packer.varint) (.init true)
        (twoRequestsOverWire.filterMap WiredOp.exchangeOp?) = some t ∧ s.Represents t :=
  ⟨_, rfl, wire_refines_exchange ⟨.littleEndian, .bigEndian⟩ answersTwice Packer.varint true 7 rfl
    (by decide)⟩

/-- Every run over channels of whole messages can be had over the wire. -/
theorem exchange_realised_over_wire (hosts : Hosts) (code : ServerCode ε γ) (packer : Packer)
    (apartment : Bool) (size : UInt32) {ops : List (ExchangeOp κ ε)} {t : Exchange κ γ}
    (hrun : run (Exchange.step code packer) (.init apartment) ops = some t)
    (hfits : Along (Exchange.step code packer) (WiredExchange.Fits code packer) (.init apartment)
      ops) :
    ∃ (wired : List (WiredOp κ ε)) (s : WiredExchange κ γ),
      wired.filterMap WiredOp.exchangeOp? = ops ∧
        run (WiredExchange.step hosts code packer) (.init hosts apartment size) wired = some s ∧
        s.Represents t ∧ s.clientAlive = true ∧ s.serving = true := by
  obtain ⟨wired, s, hlabels, hwired, hrep, -, halive⟩ := WiredExchange.realises.run
    ⟨WiredExchange.represents_init hosts apartment size, Exchange.inv_init packer apartment, rfl,
      rfl⟩ hfits hrun
  exact ⟨wired, s, hlabels, hwired, hrep, halive⟩

theorem exchange_realised_over_wire_one_request :
    ∃ t, run (Exchange.step answersTwice Packer.varint) (.init true)
        [.request 1 [42] 5 300, .deliverToServer (), .deliverToClient] = some t ∧
      ∃ (wired : List (WiredOp ℕ Unit)) (s : WiredExchange ℕ Unit),
        wired.filterMap WiredOp.exchangeOp? =
          [.request 1 [42] 5 300, .deliverToServer (), .deliverToClient] ∧
        run (WiredExchange.step ⟨.littleEndian, .bigEndian⟩ answersTwice Packer.varint)
          (.init ⟨.littleEndian, .bigEndian⟩ true 7) wired = some s ∧
        s.Represents t ∧ s.clientAlive = true ∧ s.serving = true := by
  have hfits : Along (Exchange.step answersTwice Packer.varint)
      (WiredExchange.Fits answersTwice Packer.varint) (.init true : Exchange ℕ Unit)
      [.request 1 [42] 5 300, .deliverToServer (), .deliverToClient] := by
    refine Along.cons (.of_step rfl (by decide) (by decide) (by decide) rfl) rfl ?_
    refine Along.cons (.of_step rfl (by decide) (by decide) (by decide) rfl) rfl ?_
    exact Along.cons (.of_step rfl (by decide) (by decide) (by decide) rfl) rfl trivial
  obtain ⟨t, hrun⟩ : ∃ t, run (Exchange.step answersTwice Packer.varint)
      (.init true : Exchange ℕ Unit)
      [.request 1 [42] 5 300, .deliverToServer (), .deliverToClient] = some t := ⟨_, rfl⟩
  exact ⟨t, hrun, exchange_realised_over_wire ⟨.littleEndian, .bigEndian⟩ answersTwice
    Packer.varint true 7 hrun hfits⟩

/-- Over the wire a request callback gets the value of a response to its own request, no response
leads to two calls, the client never meets bytes it cannot decode, and the loop of the server ends
if and only if a handler of the run throws. A response that has come in full runs the callback whose
handle is held. -/
theorem wire_correlated (hosts : Hosts) (code : ServerCode ε γ) (packer : Packer)
    (apartment : Bool) (size : UInt32) {ops : List (WiredOp κ ε)} {s : WiredExchange κ γ}
    (hrun : run (WiredExchange.step hosts code packer) (.init hosts apartment size) ops = some s)
    (hshort : ∀ m ∈ s.written, m.length < 2 ^ 32)
    (hcount : ops.countP WiredOp.issues < 2 ^ 64) :
    s.clientAlive = true ∧
      (s.serving = true ↔ Along (Exchange.step code packer)
        (fun t b => ¬ WiredExchange.HandlerThrows code packer t b) (.init apartment)
        (ops.filterMap WiredOp.exchangeOp?)) ∧
      ∃ t, s.Represents t ∧ Correlated code packer t ∧
        ∀ m rest callbacks callback, t.toClient = m :: rest → WiredExchange.ready s.down →
          s.client.handles m.request ≠ [] → t.requests[m.request]? = some callbacks →
            (m.responseId, callback) ∈ callbacks →
              ∃ s', s.step hosts code packer .deliverToClient = some s' ∧
                s'.calls = s.calls ++ [(callback, m.value)] := by
  have hrequests : Along (WiredExchange.step hosts code packer)
      (fun s op => op.issues → s.requests + 1 < 2 ^ 64)
      (.init hosts apartment size : WiredExchange κ γ) ops :=
    WiredExchange.requests_along (by simpa [WiredExchange.init] using hcount)
  have hfits := (WiredExchange.short_along hrun hshort).and hrequests
  have hinit := WiredExchange.joined_init (κ := κ) (γ := γ) hosts packer apartment size
  have hserving := WiredExchange.joined_simulates.holds_iff (Q := fun s => s.serving = true)
    (fun _ _ _ hlabel hs => by
      rw [(WiredExchange.step_frame hs).2.2.2
        (WiredExchange.serves_of_exchangeOp?_eq_none hlabel).2.1])
    (fun _ _ _ _ _ h hlabel hs => h.serving_step hlabel hs) hinit hfits hrun
  obtain ⟨t, -, h⟩ := WiredExchange.joined_simulates.run hinit hfits hrun
  have hcorrelated := h.inv.correlated code
  refine ⟨h.clientAlive, hserving.trans (and_iff_right rfl), t, h.toRepresents, hcorrelated, ?_⟩
  intro m rest callbacks callback hm hready hheld hreq hmem
  obtain ⟨m', rest', stream, hm', hnext⟩ := WiredExchange.head_of_ready h.down hready
  obtain ⟨s', hs, h', -, -⟩ := h.toRepresents.deliverToClient hosts packer
    hm' hnext
  obtain ⟨rfl, rfl⟩ := List.cons.inj (hm.symm.trans hm')
  rw [h.client] at hheld
  have hcall := (h.inv.call_iff (hm ▸ List.mem_cons_self)).mpr ⟨rfl, hheld, callbacks, hreq, hmem⟩
  refine ⟨s', ?_, ?_⟩
  · rw [WiredExchange.step, if_pos ⟨h.clientAlive, hready⟩, hs]
  · rw [h'.calls, h.calls, hcall, List.map_append]
    rfl

theorem wire_correlated_two_requests :
    ∃ s, run (WiredExchange.step ⟨.littleEndian, .bigEndian⟩ answersTwice Packer.varint)
        (.init ⟨.littleEndian, .bigEndian⟩ true 7) twoRequestsOverWire = some s ∧
      s.calls = [(100, [41])] ∧ s.clientAlive = true ∧
      Along (Exchange.step answersTwice Packer.varint)
        (fun t b => ¬ WiredExchange.HandlerThrows answersTwice Packer.varint t b) (.init true)
        (twoRequestsOverWire.filterMap WiredOp.exchangeOp?) ∧
      ∃ t, s.Represents t ∧ Correlated answersTwice Packer.varint t := by
  obtain ⟨s, hrun, hcalls, hshort, hserving⟩ : ∃ s,
      run (WiredExchange.step ⟨.littleEndian, .bigEndian⟩ answersTwice Packer.varint)
        (.init ⟨.littleEndian, .bigEndian⟩ true 7) twoRequestsOverWire = some s ∧
      s.calls = [(100, [41])] ∧ (∀ m ∈ s.written, m.length < 2 ^ 32) ∧ s.serving = true :=
    ⟨_, rfl, by decide, by decide, rfl⟩
  obtain ⟨hclient, hthrows, t, hrep, hcorrelated, -⟩ := wire_correlated
    ⟨.littleEndian, .bigEndian⟩ answersTwice Packer.varint true 7 hrun hshort (by decide)
  exact ⟨s, hrun, hcalls, hclient, hthrows.mp hserving, t, hrep, hcorrelated⟩

end CohesionIpc.Strmd
