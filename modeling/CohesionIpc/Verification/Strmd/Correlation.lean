import CohesionIpc.Model.Strmd.Exchange
import CohesionIpc.Verification.Strmd.Ownership

/-! Requests and responses are correlated by tokens: a callback gets the value of a response
to its own request, once, and gets it whenever its handle is held. -/

namespace CohesionIpc.Strmd

open Transition

variable {κ ε γ : Type*}

/-- What request callbacks may rely on. -/
structure Correlated (code : ServerCode ε γ) (packer : Packer) (s : Exchange κ γ) : Prop where
  /-- A callback has run with the value of a `respond` made while its own request was
  handled, under the response id it was registered for. -/
  calls : ∀ c ∈ s.calls, c.rest = c.reply.value ∧ ∃ callbacks,
    s.requests[c.reply.request]? = some callbacks ∧ (c.reply.responseId, c.callback) ∈ callbacks
  /-- No `respond` has led to two calls. -/
  once : (s.calls.map fun c => c.reply.serial).Nodup
  /-- A response that is delivered while the handle of its request is held, and for which
  the request has a callback, runs that callback. -/
  delivered : ∀ m rest callbacks callback, s.toClient = m :: rest →
    s.client.handles m.request ≠ [] → s.requests[m.request]? = some callbacks →
      (m.responseId, callback) ∈ callbacks →
        ∃ t, s.step code packer .deliverToClient = some t ∧
          t.calls = s.calls ++ [⟨callback, m.value, m⟩]

namespace Exchange

/-- The token of the request with number `n`. -/
def token (n : ℕ) : UInt64 := UInt64.ofNat (n + 1)

theorem token_inj {m n : ℕ} (hm : m + 1 < 2 ^ 64) (hn : n + 1 < 2 ^ 64) (h : token m = token n) :
    m = n := by
  have hnat := congrArg UInt64.toNat h
  rw [token, token, UInt64.toNat_ofNat', UInt64.toNat_ofNat', Nat.mod_eq_of_lt hm,
    Nat.mod_eq_of_lt hn] at hnat
  exact Nat.succ_injective hnat

/-- What the handle of request `n` owns while it is held. -/
def entries (n : ℕ) (callbacks : List (Int32 × κ)) : List (Entry κ) :=
  callbacks.reverse.map fun c => .request (c.1, token n) c.2

theorem request_mem_entries {n : ℕ} {callbacks : List (Int32 × κ)} {key : Int32 × UInt64}
    {callback : κ} : .request key callback ∈ entries n callbacks ↔
      key.2 = token n ∧ (key.1, callback) ∈ callbacks := by
  simp only [entries, List.mem_map, List.mem_reverse, Entry.request.injEq]
  constructor
  · rintro ⟨c, hc, rfl, rfl⟩
    exact ⟨rfl, hc⟩
  · rintro ⟨htoken, hmem⟩
    exact ⟨(key.1, callback), hmem, Prod.ext rfl htoken.symm, rfl⟩

/-- Every handle owns the callbacks of its request or, once released, nothing. -/
structure Owns (s : Exchange κ γ) (o : Ownership κ) : Prop where
  inv : Tracked.Inv ⟨s.client, o⟩
  issued : o.issued = s.requests.length
  registered : ∀ n, o.registered n = [] ∨ ∃ callbacks,
    s.requests[n]? = some callbacks ∧ o.registered n = entries n callbacks

structure Inv (packer : Packer) (s : Exchange κ γ) : Prop where
  owns : ∃ o, s.Owns o
  bound : s.requests.length < 2 ^ 64
  toServer : ∀ m ∈ s.toServer, m.request < s.requests.length ∧ ∃ id payload,
    m.payload = packer.id.encode id ++ (packer.token.encode (token m.request) ++ payload)
  queue : ∀ q ∈ s.queue, q.request < s.requests.length ∧ q.task.token = token q.request
  toClient : ∀ m ∈ s.toClient, m.request < s.requests.length ∧
    m.payload = packer.id.encode m.responseId ++ (packer.token.encode (token m.request) ++ m.value)
  calls : ∀ c ∈ s.calls, c.rest = c.reply.value ∧ ∃ callbacks,
    s.requests[c.reply.request]? = some callbacks ∧ (c.reply.responseId, c.callback) ∈ callbacks
  serials : ((s.calls.map fun c => c.reply.serial) ++ s.toClient.map Reply.serial).Pairwise (· < ·)
  serial_lt : ∀ k ∈ (s.calls.map fun c => c.reply.serial) ++ s.toClient.map Reply.serial,
    k < s.responds

/-! ## Dispatch -/

section

variable {packer : Packer} {s : Exchange κ γ} {o : Ownership κ}

theorem Owns.registered_request (hO : s.Owns o) {h : ℕ} {e : Entry κ} (he : e ∈ o.registered h) :
    ∃ callbacks, s.requests[h]? = some callbacks ∧ e ∈ entries h callbacks := by
  rcases hO.registered h with hnil | ⟨callbacks, hreq, hreg⟩
  · rw [hnil] at he
    exact absurd he List.not_mem_nil
  · exact ⟨callbacks, hreq, hreg ▸ he⟩

theorem Owns.lookup_messageCallbacks (hO : s.Owns o) (id : Int32) :
    s.client.session.messageCallbacks.lookup id = none := by
  rw [Option.eq_none_iff_forall_ne_some]
  intro callback hlookup
  obtain ⟨h, hmem⟩ := (hO.inv.lookup_messageCallbacks id callback).mp hlookup
  obtain ⟨callbacks, -, hmem⟩ := hO.registered_request hmem
  obtain ⟨c, -, heq⟩ := List.mem_map.mp hmem
  cases heq

/-- The callbacks that can be found under the token of a request are its own, and they are
there while its handle is held. -/
theorem Owns.lookup_callbacks (hO : s.Owns o) (hbound : s.requests.length < 2 ^ 64) {n : ℕ}
    (hn : n < s.requests.length) {id : Int32} {callback : κ} :
    s.client.session.callbacks.lookup (id, token n) = some callback ↔
      s.client.handles n ≠ [] ∧ ∃ callbacks, s.requests[n]? = some callbacks ∧
        (id, callback) ∈ callbacks := by
  have hheld := congrArg List.length (hO.inv.owned.held n)
  rw [List.length_map, List.length_map] at hheld
  rw [hO.inv.lookup_callbacks]
  constructor
  · rintro ⟨h, hmem⟩
    obtain ⟨callbacks, hreq, hentries⟩ := hO.registered_request hmem
    obtain ⟨htoken, hcallback⟩ := request_mem_entries.mp hentries
    have hh : h < s.requests.length := (List.getElem?_eq_some_iff.mp hreq).1
    have heq : h = n := token_inj (by omega) (by omega) htoken.symm
    rw [heq] at hreq hmem
    refine ⟨?_, callbacks, hreq, hcallback⟩
    intro hnil
    rw [hnil] at hheld
    rw [List.length_eq_zero_iff.mp hheld.symm] at hmem
    exact absurd hmem List.not_mem_nil
  · rintro ⟨hne, callbacks, hreq, hcallback⟩
    refine ⟨n, ?_⟩
    rcases hO.registered n with hnil | ⟨callbacks', hreq', hreg⟩
    · rw [hnil] at hheld
      exact absurd (List.length_eq_zero_iff.mp hheld) hne
    · rw [hreg, request_mem_entries]
      rw [Option.some.inj (hreq.symm.trans hreq')] at hcallback
      exact ⟨rfl, hcallback⟩

theorem Inv.dispatch (hI : s.Inv packer) {m : Reply} (hm : m ∈ s.toClient) :
    s.client.session.message packer m.payload =
      match s.client.session.callbacks.lookup (m.responseId, token m.request) with
      | some callback => .call callback m.value
      | none => .ignored := by
  obtain ⟨o, hO⟩ := hI.owns
  rw [(hI.toClient m hm).2]
  apply ClientSession.message_of_token (packer.id.decode_encode _ _)
  · exact hO.lookup_messageCallbacks _
  · exact packer.token.decode_encode _ _

/-- A delivery calls a callback exactly when the handle of the request is held and the
request has a callback for the response id. -/
theorem Inv.call_iff (hI : s.Inv packer) {m : Reply} (hm : m ∈ s.toClient) {callback : κ}
    {d : List UInt8} :
    s.client.session.message packer m.payload = .call callback d ↔
      d = m.value ∧ s.client.handles m.request ≠ [] ∧ ∃ callbacks,
        s.requests[m.request]? = some callbacks ∧ (m.responseId, callback) ∈ callbacks := by
  obtain ⟨o, hO⟩ := hI.owns
  rw [hI.dispatch hm, ← hO.lookup_callbacks hI.bound (hI.toClient m hm).1]
  cases s.client.session.callbacks.lookup (m.responseId, token m.request) with
  | none => simp
  | some callback' => simp [and_comm, eq_comm]

/-! ## Steps -/

theorem inv_init (packer : Packer) (apartment : Bool) :
    (init apartment : Exchange κ γ).Inv packer where
  owns := ⟨.init, Tracked.inv_init, rfl, fun _ => .inl rfl⟩
  bound := by simp [init]
  toServer _ h := absurd h List.not_mem_nil
  queue _ h := absurd h List.not_mem_nil
  toClient _ h := absurd h List.not_mem_nil
  calls _ h := absurd h List.not_mem_nil
  serials := List.Pairwise.nil
  serial_lt _ h := absurd h List.not_mem_nil

theorem getElem?_concat {l : List (List (Int32 × κ))} {n : ℕ} {callbacks x : List (Int32 × κ)}
    (h : l[n]? = some callbacks) : (l ++ [x])[n]? = some callbacks := by
  rw [List.getElem?_append_left (List.getElem?_eq_some_iff.mp h).1, h]

/-- A request with a fresh handle and distinct ids makes its handle the owner of its
callbacks, and goes out with its token. -/
theorem Inv.issue {t : Exchange κ γ} (hI : s.Inv packer) (hleft : s.requests.length + 1 < 2 ^ 64)
    {op : HandleOp κ} {callbacks : List (Int32 × κ)} (hs : s.issue packer op callbacks = some t)
    (hop : ∀ o : Ownership κ, o.issued = s.requests.length → o.step op =
      ⟨Function.update o.registered s.requests.length (entries s.requests.length callbacks),
        o.issued + 1⟩)
    (hsub : ∀ o : Ownership κ, SubscribesNewId ⟨s.client, o⟩ op)
    (hapart : ∀ o : Ownership κ, o.registered s.requests.length = [] →
      RequestsApart ⟨s.client, o⟩ op)
    (hbuffer : ∀ client, s.client.step packer op = some client → ∃ id payload,
      client.session.buffer =
        packer.id.encode id ++ packer.token.encode s.client.session.token ++ payload) :
    t.Inv packer := by
  obtain ⟨client, hclient, rfl⟩ := Option.map_eq_some_iff.mp hs
  obtain ⟨o, hO⟩ := hI.owns
  have hfresh : o.registered s.requests.length = [] := by
    rcases hO.registered s.requests.length with h | ⟨callbacks', h, -⟩
    · exact h
    · rw [List.getElem?_eq_none le_rfl] at h
      cases h
  have hstep : Tracked.step packer ⟨s.client, o⟩ op = some ⟨client, o.step op⟩ := by
    rw [Tracked.step, hclient, Option.map_some]
  have hinv := (Tracked.inv_step hO.inv (fun _ => by rw [hO.issued]; exact hleft) (hsub o)
    (hapart o hfresh) hstep).1
  rw [hop o hO.issued] at hinv
  have hlength : (s.requests ++ [callbacks]).length = s.requests.length + 1 := by simp
  refine ⟨⟨_, hinv, ?_, ?_⟩, ?_, ?_, ?_, ?_, ?_, hI.serials, hI.serial_lt⟩
  · rw [hlength, hO.issued]
  · intro n
    by_cases hn : n = s.requests.length
    · right
      refine ⟨callbacks, ?_, ?_⟩
      · rw [hn]
        simp
      · simp only [hn, Function.update_self]
    · simp only [Function.update_of_ne hn]
      rcases hO.registered n with hnil | ⟨callbacks', hreq, hreg⟩
      · exact .inl hnil
      · exact .inr ⟨callbacks', getElem?_concat hreq, hreg⟩
  · rwa [hlength]
  · intro m hm
    rw [hlength]
    rcases List.mem_append.mp hm with hm | hm
    · obtain ⟨hlt, hpayload⟩ := hI.toServer m hm
      exact ⟨by omega, hpayload⟩
    · obtain ⟨id, payload, hbuf⟩ := hbuffer client hclient
      rw [List.mem_singleton.mp hm]
      refine ⟨Nat.lt_succ_self _, id, payload, ?_⟩
      have htoken : s.client.session.token = token s.requests.length := by
        rw [← hO.issued]
        exact hO.inv.token
      rw [hbuf, htoken, List.append_assoc]
  · intro q hq
    obtain ⟨hlt, htoken⟩ := hI.queue q hq
    exact ⟨by rw [hlength]; omega, htoken⟩
  · intro m hm
    obtain ⟨hlt, hpayload⟩ := hI.toClient m hm
    exact ⟨by rw [hlength]; omega, hpayload⟩
  · intro c hc
    obtain ⟨hrest, callbacks', hreq, hmem⟩ := hI.calls c hc
    exact ⟨hrest, callbacks', getElem?_concat hreq, hmem⟩

theorem mem_ofSent {n k : ℕ} {sent : List Sent} {m : Reply} (hm : m ∈ Reply.ofSent n k sent) :
    m.request = n ∧ (⟨m.responseId, m.value, m.payload⟩ : Sent) ∈ sent := by
  induction sent generalizing k with
  | nil => exact absurd hm List.not_mem_nil
  | cons x xs ih =>
      rcases List.mem_cons.mp hm with rfl | hm
      · exact ⟨rfl, List.mem_cons_self⟩
      · exact ⟨(ih hm).1, List.mem_cons_of_mem _ (ih hm).2⟩

theorem serials_ofSent (n k : ℕ) (sent : List Sent) :
    (Reply.ofSent n k sent).map Reply.serial = List.range' k sent.length := by
  induction sent generalizing k with
  | nil => rfl
  | cons x xs ih => rw [Reply.ofSent, List.map_cons, ih, List.length_cons, List.range'_succ]

/-- What the server does for a request carries the token of that request. -/
theorem Inv.handled (hI : s.Inv packer) {n : ℕ} (hn : n < s.requests.length) {done : Handled γ}
    (hdone : done.Answers packer (token n)) : (s.handled n done).Inv packer := by
  obtain ⟨o, hO⟩ := hI.owns
  have hserials : (s.calls.map fun c => c.reply.serial) ++
      (s.toClient ++ Reply.ofSent n s.responds done.sent).map Reply.serial =
        ((s.calls.map fun c => c.reply.serial) ++ s.toClient.map Reply.serial) ++
          List.range' s.responds done.sent.length := by
    rw [List.map_append, serials_ofSent, List.append_assoc]
  refine ⟨⟨o, hO.inv, hO.issued, hO.registered⟩, hI.bound, hI.toServer, ?_, ?_, hI.calls, ?_, ?_⟩
  · intro q hq
    rcases List.mem_append.mp hq with hq | hq
    · exact hI.queue q hq
    · obtain ⟨task, htask, rfl⟩ := Option.map_eq_some_iff.mp (Option.mem_toList.mp hq)
      exact ⟨hn, hdone.scheduled task htask⟩
  · intro m hm
    rcases List.mem_append.mp hm with hm | hm
    · exact hI.toClient m hm
    · obtain ⟨hrequest, hsent⟩ := mem_ofSent hm
      rw [hrequest]
      exact ⟨hn, hdone.sent _ hsent⟩
  · simp only [Exchange.handled]
    rw [hserials, List.pairwise_append]
    refine ⟨hI.serials, List.pairwise_lt_range', ?_⟩
    intro k hk k' hk'
    have hlt := hI.serial_lt k hk
    have hle := (List.mem_range'_1.mp hk').1
    omega
  · simp only [Exchange.handled]
    rw [hserials]
    intro k hk
    rcases List.mem_append.mp hk with hk | hk
    · have hlt := hI.serial_lt k hk
      omega
    · exact (List.mem_range'_1.mp hk).2

theorem Inv.deliver (hI : s.Inv packer) {m : Reply} {rest : List Reply}
    (hm : s.toClient = m :: rest) {calls : List (Call κ)}
    (hcalls : calls = s.calls ∨ ∃ callback d,
      s.client.session.message packer m.payload = .call callback d ∧
        calls = s.calls ++ [⟨callback, d, m⟩]) :
    ({ s with toClient := rest, calls := calls } : Exchange κ γ).Inv packer := by
  obtain ⟨o, hO⟩ := hI.owns
  have hserials := hI.serials
  have hlt := hI.serial_lt
  rw [hm, List.map_cons] at hserials hlt
  have htail : ∀ m' ∈ rest, m' ∈ s.toClient := fun m' h => hm ▸ List.mem_cons_of_mem _ h
  refine ⟨⟨o, hO.inv, hO.issued, hO.registered⟩, hI.bound, hI.toServer, hI.queue,
    fun m' h => hI.toClient m' (htail m' h), ?_, ?_, ?_⟩
  · rcases hcalls with rfl | ⟨callback, d, hcall, rfl⟩
    · exact hI.calls
    · intro c hc
      rcases List.mem_append.mp hc with hc | hc
      · exact hI.calls c hc
      · obtain ⟨hd, -, hcallback⟩ := (hI.call_iff (hm ▸ List.mem_cons_self)).mp hcall
        rw [List.mem_singleton.mp hc]
        exact ⟨hd, hcallback⟩
  · rcases hcalls with rfl | ⟨callback, d, -, rfl⟩
    · exact hserials.sublist (List.Sublist.append_left (List.sublist_cons_self _ _) _)
    · simpa using hserials
  · rcases hcalls with rfl | ⟨callback, d, -, rfl⟩
    · intro k hk
      apply hlt k
      rcases List.mem_append.mp hk with hk | hk
      · exact List.mem_append_left _ hk
      · exact List.mem_append_right _ (List.mem_cons_of_mem _ hk)
    · simpa using hlt

variable {code : ServerCode ε γ} {t : Exchange κ γ} {op : ExchangeOp κ ε}

theorem length_requests_step (hs : s.step code packer op = some t) :
    t.requests.length = s.requests.length + if op.issues then 1 else 0 := by
  cases op with
  | request id payload responseId callback =>
      obtain ⟨client, -, rfl⟩ := Option.map_eq_some_iff.mp hs
      simp [ExchangeOp.issues]
  | requestMany id payload callback =>
      simp only [step, Option.ite_none_right_eq_some] at hs
      obtain ⟨client, -, rfl⟩ := Option.map_eq_some_iff.mp hs.2
      simp [ExchangeOp.issues]
  | release n =>
      rw [step, Option.map_eq_some_iff] at hs
      obtain ⟨client, -, rfl⟩ := hs
      rfl
  | deliverToServer e =>
      simp only [step] at hs
      split at hs
      · cases hs
      · cases hs
        rfl
  | runContinuation e =>
      simp only [step] at hs
      split at hs
      · cases hs
      · cases hs
        rfl
  | deliverToClient =>
      simp only [step] at hs
      split at hs
      · cases hs
      · cases hs
        rfl

theorem Inv.popToServer (hI : s.Inv packer) {m : Issued} {rest : List Issued}
    (hm : s.toServer = m :: rest) : ({ s with toServer := rest } : Exchange κ γ).Inv packer := by
  obtain ⟨o, hO⟩ := hI.owns
  exact { hI with
    owns := ⟨o, hO.inv, hO.issued, hO.registered⟩
    toServer := fun m' h => hI.toServer m' (hm ▸ List.mem_cons_of_mem _ h) }

theorem Inv.popQueue (hI : s.Inv packer) {q : Queued γ} {rest : List (Queued γ)}
    (hq : s.queue = q :: rest) : ({ s with queue := rest } : Exchange κ γ).Inv packer := by
  obtain ⟨o, hO⟩ := hI.owns
  exact { hI with
    owns := ⟨o, hO.inv, hO.issued, hO.registered⟩
    queue := fun q' h => hI.queue q' (hq ▸ List.mem_cons_of_mem _ h) }

theorem inv_step (hI : s.Inv packer) (hleft : op.issues → s.requests.length + 1 < 2 ^ 64)
    (hs : s.step code packer op = some t) : t.Inv packer := by
  cases op with
  | request id payload responseId callback =>
      apply hI.issue (hleft rfl) hs
      · intro o ho
        simp only [Ownership.step, Ownership.token, ho]
        rfl
      · exact fun _ => trivial
      · exact fun _ _ => trivial
      · intro client hclient
        simp only [Client.step, Option.ite_none_right_eq_some, Option.some.injEq] at hclient
        obtain ⟨-, rfl⟩ := hclient
        exact ⟨id, payload, ClientSession.buffer_request _ _ _ _⟩
  | requestMany id payload callback =>
      simp only [step, Option.ite_none_right_eq_some] at hs
      obtain ⟨hnodup, hs⟩ := hs
      apply hI.issue (hleft rfl) hs
      · intro o ho
        simp only [Ownership.step, Ownership.token, ho]
        rfl
      · exact fun _ => trivial
      · exact fun _ hfresh => ⟨hfresh, hnodup⟩
      · intro client hclient
        simp only [Client.step, Option.ite_none_right_eq_some, Option.some.injEq] at hclient
        obtain ⟨-, rfl⟩ := hclient
        exact ⟨id, payload, ClientSession.buffer_requestMany _ _ _ _⟩
  | release n =>
      rw [step, Option.map_eq_some_iff] at hs
      obtain ⟨client, hclient, rfl⟩ := hs
      cases hclient
      obtain ⟨o, hO⟩ := hI.owns
      refine { hI with owns := ⟨_, hO.inv.release n, hO.issued, ?_⟩ }
      intro h
      by_cases heq : h = n
      · left
        simp [Ownership.step, heq]
      · simp only [Ownership.step, Function.update_of_ne heq]
        exact hO.registered h
  | deliverToServer e =>
      simp only [step] at hs
      split at hs
      · cases hs
      · rename_i m rest hm
        cases hs
        obtain ⟨hlt, id, payload, hpayload⟩ := hI.toServer m (hm ▸ List.mem_cons_self)
        apply (hI.popToServer hm).handled hlt
        rw [hpayload]
        exact ServerSession.message_answers code e s.server id _ payload
  | runContinuation e =>
      simp only [step] at hs
      split at hs
      · cases hs
      · rename_i q rest hq
        cases hs
        obtain ⟨hlt, htoken⟩ := hI.queue q (hq ▸ List.mem_cons_self)
        apply (hI.popQueue hq).handled hlt
        rw [← htoken]
        exact ServerSession.runTask_answers code e s.server q.task
  | deliverToClient =>
      simp only [step] at hs
      split at hs
      · cases hs
      · rename_i m rest hm
        cases hs
        apply hI.deliver hm
        cases hcall : s.client.session.message packer m.payload with
        | raised => exact .inl rfl
        | ignored => exact .inl rfl
        | call callback d => exact .inr ⟨callback, d, rfl, rfl⟩

theorem Inv.correlated (code : ServerCode ε γ) (hI : s.Inv packer) : Correlated code packer s := by
  refine ⟨hI.calls, ?_, ?_⟩
  · have hcalls := hI.serials.sublist (List.sublist_append_left _ _)
    exact hcalls.imp fun h => h.ne
  · intro m rest callbacks callback hm hheld hreq hmem
    have hcall := (hI.call_iff (hm ▸ List.mem_cons_self)).mpr ⟨rfl, hheld, callbacks, hreq, hmem⟩
    simp [step, hm, hcall]

end

end Exchange

/-! ## Runs -/

/-- In every run with fewer than `2 ^ 64` requests, for every handler table, all deferrals
and every order of the steps, requests and responses are correlated. -/
theorem exchange_correlated (code : ServerCode ε γ) (packer : Packer) (apartment : Bool)
    {ops : List (ExchangeOp κ ε)} (hcount : ops.countP ExchangeOp.issues < 2 ^ 64)
    {s : Exchange κ γ} (hrun : run (Exchange.step code packer) (.init apartment) ops = some s) :
    Correlated code packer s := by
  have hleft : Along (Exchange.step code packer)
      (fun s op => ExchangeOp.issues op → s.requests.length + 1 < 2 ^ 64)
      (.init apartment : Exchange κ γ) ops := by
    apply along_count_lt fun s : Exchange κ γ => s.requests.length
    · exact fun s op t hs => Exchange.length_requests_step hs
    · simpa [Exchange.init] using hcount
  apply Exchange.Inv.correlated
  exact run_invariant (Exchange.Inv packer)
    (fun s op t hI hop hs => Exchange.inv_step hI hop hs) (Exchange.inv_init packer apartment)
    hleft hrun

/-- A server whose handler of request 1 answers at once and again from a continuation. -/
def answersTwice : ServerCode Unit Unit where
  handlers id :=
    if id = 1 then some fun _ payload => .respond 5 payload (.defer (some ()) .done .throw)
    else none
  resume _ _ := .respond 6 [43] .done

/-- Two requests are in flight, and the handle of the first is released after its first
response has been delivered. -/
def twoRequests : List (ExchangeOp ℕ Unit) :=
  [.requestMany 1 [41] [(5, 100), (6, 200)], .request 1 [42] 6 300, .deliverToServer (),
    .deliverToServer (), .deliverToClient, .release 0, .runContinuation (), .runContinuation (),
    .deliverToClient, .deliverToClient, .deliverToClient]

theorem exchange_correlated_two_requests :
    ∃ s, run (Exchange.step answersTwice Packer.varint) (.init true) twoRequests = some s ∧
      s.calls = [⟨100, [41], ⟨[10, 1, 41], 0, 0, 5, [41]⟩⟩,
        ⟨300, [43], ⟨[12, 2, 43], 3, 1, 6, [43]⟩⟩] ∧
      Correlated answersTwice Packer.varint s :=
  ⟨_, rfl, by decide, exchange_correlated answersTwice Packer.varint true
    (show twoRequests.countP ExchangeOp.issues < 2 ^ 64 by decide) rfl⟩

end CohesionIpc.Strmd
