import CohesionIpc.Model.Strmd.ServerCalls
import Mathlib.Data.Finset.Card
import Mathlib.Data.Finset.Range
import Mathlib.Data.List.Perm.Basic

/-! Deferred responses: a request starts a chain of a handler and continuations, of which
one at most is running or waiting in the apartment queue at any time. -/

namespace CohesionIpc.Strmd

open Transition

variable {κ γ α : Type*}

/-! ## Chains -/

/-- What has become of a request: code runs on its behalf, with what that has deferred last;
a continuation waits; or nothing is left to be done. -/
inductive ChainState (γ : Type*)
  | running (last : Option γ)
  | deferred (k : γ)
  | ended

/-- A request with its token. -/
structure Chain (γ : Type*) where
  token : UInt64
  state : ChainState γ

/-- The code of a chain returns. -/
def ChainState.finish : ChainState γ → ChainState γ
  | .running (some k) => .deferred k
  | _ => .ended

def ChainState.isDeferred : ChainState γ → Bool
  | .deferred _ => true
  | _ => false

/-- Chains by number. -/
abbrev Chains (γ : Type*) := ℕ → Option (Chain γ)

namespace Chains

/-- The chain `c` goes on. -/
def modify (chains : Chains γ) (c : ℕ) (f : ChainState γ → ChainState γ) : Chains γ :=
  Function.update chains c ((chains c).map fun chain => { chain with state := f chain.state })

/-- So does the chain `c`, if there is one. -/
def goOn (chains : Chains γ) (c : Option ℕ) (f : ChainState γ → ChainState γ) : Chains γ :=
  c.elim chains fun c => chains.modify c f

/-- How many of the first `n` chains wait for a continuation. -/
def waiting (chains : Chains γ) (n : ℕ) : ℕ :=
  ((Finset.range n).filter fun c => (chains c).any fun chain => chain.state.isDeferred).card

theorem modify_of_some {chains : Chains γ} {c : ℕ} {chain : Chain γ} (h : chains c = some chain)
    (f : ChainState γ → ChainState γ) :
    chains.modify c f = Function.update chains c (some ⟨chain.token, f chain.state⟩) := by
  rw [modify, h, Option.map_some]

/-- Tokens stay with their chains. -/
theorem token_modify {chains : Chains γ} {c : ℕ} {chain : Chain γ} (h : chains c = some chain)
    (c' : ℕ) (f : ChainState γ → ChainState γ) :
    ∃ state, chains.modify c' f c = some ⟨chain.token, state⟩ := by
  by_cases hc : c = c'
  · rw [← hc, modify_of_some h, Function.update_self]
    exact ⟨_, rfl⟩
  · rw [modify, Function.update_of_ne hc]
    exact ⟨chain.state, h⟩

@[simp] theorem goOn_some (chains : Chains γ) (c : ℕ) (f : ChainState γ → ChainState γ) :
    chains.goOn (some c) f = chains.modify c f := rfl

@[simp] theorem goOn_none (chains : Chains γ) (f : ChainState γ → ChainState γ) :
    chains.goOn none f = chains := rfl

theorem token_goOn {chains : Chains γ} {c : ℕ} {chain : Chain γ} (h : chains c = some chain)
    (c' : Option ℕ) (f : ChainState γ → ChainState γ) :
    ∃ state, chains.goOn c' f c = some ⟨chain.token, state⟩ := by
  cases c' with
  | none => exact ⟨chain.state, h⟩
  | some c' => exact token_modify h c' f

end Chains

/-- The live chains among `n` are those of `entries`. -/
structure Follows (entries : List (ℕ × Chain γ)) (n : ℕ) (chains : Chains γ) : Prop where
  nodup : (entries.map Prod.fst).Nodup
  chain : ∀ x ∈ entries, chains x.1 = some x.2
  live : ∀ c token state, chains c = some ⟨token, state⟩ → state ≠ .ended →
    (c, ⟨token, state⟩) ∈ entries
  known : ∀ c, n ≤ c → chains c = none

namespace Follows

variable {entries entries' : List (ℕ × Chain γ)} {n c : ℕ} {chains : Chains γ} {chain : Chain γ}

theorem perm (hF : Follows entries n chains) (hperm : entries.Perm entries') :
    Follows entries' n chains :=
  ⟨(hperm.map _).nodup_iff.mp hF.nodup, fun x hx => hF.chain x (hperm.mem_iff.mpr hx),
    fun c token state hc hlive => hperm.mem_iff.mp (hF.live c token state hc hlive), hF.known⟩

/-- A new chain gets the next number. -/
theorem start (hF : Follows entries n chains) (token : UInt64) (last : Option γ) :
    Follows ((n, ⟨token, .running last⟩) :: entries) (n + 1)
      (Function.update chains n (some ⟨token, .running last⟩)) := by
  have hne : ∀ x ∈ entries, x.1 ≠ n := by
    intro x hx heq
    have hchain := hF.chain x hx
    rw [hF.known x.1 heq.ge] at hchain
    cases hchain
  refine ⟨?_, ?_, ?_, ?_⟩
  · rw [List.map_cons, List.nodup_cons]
    refine ⟨?_, hF.nodup⟩
    intro hmem
    rcases List.mem_map.mp hmem with ⟨x, hx, heq⟩
    exact hne x hx heq
  · intro x hx
    rcases List.mem_cons.mp hx with rfl | hx
    · exact Function.update_self _ _ _
    · rw [Function.update_of_ne (hne x hx)]
      exact hF.chain x hx
  · intro c token' state hc hlive
    by_cases heq : c = n
    · rw [heq, Function.update_self, Option.some.injEq] at hc
      rw [heq, ← hc]
      exact List.mem_cons_self
    · rw [Function.update_of_ne heq] at hc
      exact List.mem_cons_of_mem _ (hF.live c token' state hc hlive)
  · intro c hc
    rw [Function.update_of_ne (by omega)]
    exact hF.known c (by omega)

theorem notMem_tail (hF : Follows ((c, chain) :: entries) n chains) :
    ∀ x ∈ entries, x.1 ≠ c := by
  intro x hx heq
  have hnodup := hF.nodup
  rw [List.map_cons, List.nodup_cons] at hnodup
  have hmem := List.mem_map_of_mem (f := Prod.fst) hx
  rw [heq] at hmem
  exact hnodup.1 hmem

theorem modify_self (hF : Follows ((c, chain) :: entries) n chains)
    (f : ChainState γ → ChainState γ) :
    chains.modify c f = Function.update chains c (some ⟨chain.token, f chain.state⟩) :=
  Chains.modify_of_some (hF.chain (c, chain) List.mem_cons_self) f

theorem lt_self (hF : Follows ((c, chain) :: entries) n chains) : c < n := by
  by_contra hge
  have hchain := hF.chain (c, chain) List.mem_cons_self
  rw [hF.known c (by omega)] at hchain
  cases hchain

/-- A chain goes on. -/
theorem change (hF : Follows ((c, chain) :: entries) n chains)
    (f : ChainState γ → ChainState γ) :
    Follows ((c, ⟨chain.token, f chain.state⟩) :: entries) n (chains.modify c f) := by
  have htail := hF.notMem_tail
  have hlt := hF.lt_self
  rw [hF.modify_self]
  refine ⟨hF.nodup, ?_, ?_, ?_⟩
  · intro x hx
    rcases List.mem_cons.mp hx with rfl | hx
    · exact Function.update_self _ _ _
    · rw [Function.update_of_ne (htail x hx)]
      exact hF.chain x (List.mem_cons_of_mem _ hx)
  · intro c' token state hc' hlive
    by_cases heq : c' = c
    · rw [heq, Function.update_self, Option.some.injEq] at hc'
      rw [heq, ← hc']
      exact List.mem_cons_self
    · rw [Function.update_of_ne heq] at hc'
      rcases List.mem_cons.mp (hF.live c' token state hc' hlive) with hhead | hmem
      · rw [Prod.mk.injEq] at hhead
        exact absurd hhead.1 heq
      · exact List.mem_cons_of_mem _ hmem
  · intro c' hc'
    rw [Function.update_of_ne (by omega)]
    exact hF.known c' hc'

/-- A chain is over. -/
theorem leave (hF : Follows ((c, chain) :: entries) n chains) {f : ChainState γ → ChainState γ}
    (hended : f chain.state = .ended) : Follows entries n (chains.modify c f) := by
  have hnext := hF.change f
  have htail := hF.notMem_tail
  refine ⟨(List.nodup_cons.mp hnext.nodup).2,
    fun x hx => hnext.chain x (List.mem_cons_of_mem _ hx), ?_, hnext.known⟩
  intro c' token state hc' hlive
  rcases List.mem_cons.mp (hnext.live c' token state hc' hlive) with hhead | hmem
  · rw [hended, Prod.mk.injEq, Chain.mk.injEq] at hhead
    exact absurd hhead.2.2 hlive
  · exact hmem

end Follows

/-! ## The chains of a session -/

/-- A server session beside the chains of its requests. -/
structure Chained (κ γ α : Type*) where
  server : ServerCalls κ γ α
  chains : Chains γ

namespace ServerCalls

/-- The token of the request that a message starts a handler for. -/
def started (packer : Packer) (s : ServerCalls κ γ α) (payload : List UInt8) : Option UInt64 :=
  match packer.id.decode payload with
  | none => none
  | some (requestId, d) =>
      match packer.token.decode d with
      | none => none
      | some (token, d) =>
          match s.handlers requestId with
          | none => none
          | some h =>
              match h.parameter with
              | none => some token
              | some x => if (x.read d h.arg1).2 then some token else none

/-- The request on behalf of which the innermost call runs. -/
def innermost (s : ServerCalls κ γ α) : Option ℕ :=
  match s.stack with
  | .invocation request _ _ :: _ => some request
  | _ => none

/-- The chains whose code runs. -/
def calls (stack : List (ServerFrame κ γ α)) : List (ℕ × Chain γ) :=
  stack.filterMap fun
    | .invocation request _ r => some (request, ⟨r.token, .running r.continuation⟩)
    | .sending .. => none

/-- The chains whose continuation is in the queue. -/
def tasks (queue : List (Queued γ)) : List (ℕ × Chain γ) :=
  queue.map fun q => (q.request, ⟨q.task.token, .deferred q.task.continuation⟩)

def entries (s : ServerCalls κ γ α) : List (ℕ × Chain γ) := calls s.stack ++ tasks s.queue

/-- Only a session with a queue has continuations. -/
structure Permitted (s : ServerCalls κ γ α) : Prop where
  enabled : ∀ request body r, .invocation request body r ∈ s.stack →
    r.deferralEnabled = s.apartment
  continued : ∀ request body r, .invocation request body r ∈ s.stack →
    r.continuation ≠ none → s.apartment = true
  queued : s.queue ≠ [] → s.apartment = true

/-- What the chains come to in a step. -/
def nextChains (packer : Packer) (s : ServerCalls κ γ α) (chains : Chains γ) :
    ServerCall κ γ α → Chains γ
  | .message payload =>
      match s.started packer payload with
      | some token => Function.update chains s.requests (some ⟨token, .running none⟩)
      | none => chains
  | .runTask i => chains.goOn (s.queue[i]?.map Queued.request) fun _ => .running none
  | .defer continuation =>
      if s.apartment then chains.goOn s.innermost fun _ => .running continuation else chains
  | .finish => chains.goOn s.innermost ChainState.finish
  | .throw => chains.goOn s.innermost fun _ => .ended
  | .respond .. | .send .. | .addHandler .. => chains

end ServerCalls

namespace Chained

def init (apartment : Bool) : Chained κ γ α := ⟨.init apartment, fun _ => none⟩

def step [Inhabited α] (packer : Packer) (s : Chained κ γ α) (e : ServerCall κ γ α) :
    Option (Chained κ γ α) :=
  (s.server.step packer e).map fun t => ⟨t, s.server.nextChains packer s.chains e⟩

/-- The session keeps the chains: each that is live has one call or one task. -/
structure Inv (s : Chained κ γ α) : Prop where
  follows : Follows s.server.entries s.server.requests s.chains
  permitted : s.server.Permitted

end Chained

/-- What deferral promises of a step from `s` to `t`. -/
structure Deferrals (packer : Packer) (s : Chained κ γ α) (e : ServerCall κ γ α)
    (t : Chained κ γ α) : Prop where
  /-- A handler starts the chain of its request. -/
  start : ∀ payload, e = .message payload → t.server.stack = s.server.stack ∨
    ∃ id d' token d body, packer.id.decode payload = some (id, d') ∧
      packer.token.decode d' = some (token, d) ∧
      t.server.stack = .invocation s.server.requests body ⟨token, s.server.apartment, none⟩ ::
        s.server.stack ∧
      s.chains s.server.requests = none ∧
      t.chains s.server.requests = some ⟨token, .running none⟩
  /-- Chains keep their tokens. -/
  tokens : ∀ c chain, s.chains c = some chain →
    ∃ state, t.chains c = some ⟨chain.token, state⟩
  /-- A response carries the token of the chain it is sent from. -/
  respond : ∀ responseId value spare, e = .respond responseId value spare →
    ∃ c chain view, s.server.innermost = some c ∧ s.chains c = some chain ∧
      t.server.stack = .sending view (packer.id.encode responseId ++
        (packer.token.encode chain.token ++ value)) :: s.server.stack
  /-- What has been deferred last goes into the queue when the code returns. -/
  finish : ∀ c, e = .finish → s.server.innermost = some c →
    ∃ token last, s.chains c = some ⟨token, .running last⟩ ∧
      t.server.queue = s.server.queue ++ (last.map fun k => ⟨⟨token, k⟩, c⟩).toList
  /-- Nothing else goes into the queue or out of it, but for a task that is run. -/
  others : (e = .finish → s.server.innermost = none) → (∀ i, e ≠ .runTask i) →
    t.server.queue = s.server.queue
  /-- A task runs the continuation its chain waits for, once. -/
  resume : ∀ i, e = .runTask i → ∃ c token k, s.server.queue[i]? = some ⟨⟨token, k⟩, c⟩ ∧
    s.chains c = some ⟨token, .deferred k⟩ ∧
    t.server.queue = s.server.queue.eraseIdx i ∧
    t.server.stack = .invocation c (.continuation k) ⟨token, true, none⟩ :: s.server.stack
  /-- There are as many tasks as chains that wait for one. -/
  pending : t.server.queue.length = t.chains.waiting t.server.requests
  /-- Without a queue `defer` throws and does nothing else. -/
  noQueue : ∀ continuation, e = .defer continuation → s.server.apartment = false →
    t = { s with server := { s.server with thrown := true } }

namespace ServerCalls

variable {packer : Packer} {s : ServerCalls κ γ α} {payload : List UInt8}

@[simp] theorem calls_invocation (request : ℕ) (body : Body κ γ α) (r : Response γ)
    (stack : List (ServerFrame κ γ α)) : calls (.invocation request body r :: stack) =
      (request, ⟨r.token, .running r.continuation⟩) :: calls stack := rfl

/-- A message that starts a handler puts it in front of the calls. -/
theorem message_of_started {token : UInt64} (h : s.started packer payload = some token) :
    ∃ id d' d body, packer.id.decode payload = some (id, d') ∧
      packer.token.decode d' = some (token, d) ∧
      (s.message packer payload).stack =
        .invocation s.requests body ⟨token, s.apartment, none⟩ :: s.stack ∧
      (s.message packer payload).queue = s.queue ∧
      (s.message packer payload).requests = s.requests + 1 ∧
      (s.message packer payload).apartment = s.apartment := by
  simp only [started] at h
  split at h
  · cases h
  · rename_i id d' hid
    split at h
    · cases h
    · rename_i token' d htoken
      split at h
      · cases h
      · rename_i thunk hthunk
        split at h
        · rename_i hnone
          cases h
          refine ⟨id, d', d, .handler id thunk.registration thunk.underlying none, hid, htoken, ?_⟩
          simp only [message, hid, htoken, hthunk, callHandler, hnone, invoke, and_self]
        · rename_i x hx
          rw [Option.ite_none_right_eq_some] at h
          rcases h with ⟨hread, heq⟩
          cases heq
          refine ⟨id, d', d, .handler id thunk.registration thunk.underlying
            (some (x.pass (x.read d thunk.arg1).1)), hid, htoken, ?_⟩
          simp only [message, hid, htoken, hthunk, callHandler, hx, hread, if_true, invoke,
            and_self]

theorem message_of_not_started (h : s.started packer payload = none) :
    (s.message packer payload).stack = s.stack ∧ (s.message packer payload).queue = s.queue ∧
      (s.message packer payload).requests = s.requests ∧
      (s.message packer payload).apartment = s.apartment := by
  cases hid : packer.id.decode payload with
  | none => simp only [message, hid, and_self]
  | some pair =>
      rcases pair with ⟨id, d'⟩
      cases htoken : packer.token.decode d' with
      | none => simp only [message, hid, htoken, and_self]
      | some pair =>
          rcases pair with ⟨token, d⟩
          cases hthunk : s.handlers id with
          | none => simp only [message, hid, htoken, hthunk, and_self]
          | some thunk =>
              cases hx : thunk.parameter with
              | none =>
                  simp only [started, hid, htoken, hthunk, hx] at h
                  cases h
              | some x =>
                  simp only [started, hid, htoken, hthunk, hx] at h
                  have hread : (x.read d thunk.arg1).2 = false := by
                    by_contra hread
                    rw [Bool.not_eq_false] at hread
                    rw [if_pos hread] at h
                    cases h
                  simp only [message, hid, htoken, hthunk, callHandler, hx, hread,
                    Bool.false_eq_true, if_false, and_self]

namespace Permitted

variable {t : ServerCalls κ γ α}

theorem mono (hP : s.Permitted) (hstack : ∀ request body r,
      .invocation request body r ∈ t.stack → .invocation request body r ∈ s.stack)
    (hqueue : t.queue ≠ [] → s.queue ≠ []) (hapartment : t.apartment = s.apartment) :
    t.Permitted := by
  refine ⟨?_, ?_, ?_⟩
  · intro request body r hr
    rw [hapartment]
    exact hP.enabled request body r (hstack request body r hr)
  · intro request body r hr hcontinuation
    rw [hapartment]
    exact hP.continued request body r (hstack request body r hr) hcontinuation
  · intro hne
    rw [hapartment]
    exact hP.queued (hqueue hne)

theorem push (hP : s.Permitted) {c : ℕ} {body : Body κ γ α} {r : Response γ}
    (hstack : t.stack = .invocation c body r :: s.stack)
    (henabled : r.deferralEnabled = s.apartment) (hcontinuation : r.continuation = none)
    (hqueue : t.queue ≠ [] → s.queue ≠ []) (hapartment : t.apartment = s.apartment) :
    t.Permitted := by
  have hrest : ({ t with stack := s.stack } : ServerCalls κ γ α).Permitted :=
    hP.mono (fun _ _ _ hr => hr) hqueue hapartment
  refine ⟨?_, ?_, hrest.queued⟩
  · intro request body' r' hr
    rw [hstack] at hr
    rcases List.mem_cons.mp hr with heq | hr
    · cases heq
      rw [henabled, hapartment]
    · exact hrest.enabled request body' r' hr
  · intro request body' r' hr hne
    rw [hstack] at hr
    rcases List.mem_cons.mp hr with heq | hr
    · cases heq
      exact absurd hcontinuation hne
    · exact hrest.continued request body' r' hr hne

end Permitted

/-- Continuations are kept by sessions with a queue only, whatever is called. -/
theorem permitted_step [Inhabited α] {t : ServerCalls κ γ α} {e : ServerCall κ γ α}
    (hP : s.Permitted) (hs : s.step packer e = some t) : t.Permitted := by
  cases steps_of_step hs with
  | message payload =>
      cases hstarted : s.started packer payload with
      | none =>
          rcases message_of_not_started hstarted with ⟨hstack, hqueue, -, hapartment⟩
          refine hP.mono ?_ (fun hne => by rwa [hqueue] at hne) hapartment
          rw [hstack]
          exact fun _ _ _ hr => hr
      | some token =>
          rcases message_of_started hstarted with
            ⟨id, d', d, body, -, -, hstack, hqueue, -, hapartment⟩
          exact hP.push hstack rfl rfl (fun hne => by rwa [hqueue] at hne) hapartment
  | runTask hq =>
      have hne : s.queue ≠ [] := List.ne_nil_of_mem (List.mem_of_getElem? hq)
      exact hP.push rfl (hP.queued hne).symm rfl (fun _ => hne) rfl
  | respond hstack responseId value spare =>
      refine hP.mono ?_ id rfl
      exact fun _ _ _ hr => List.mem_of_ne_of_mem (by simp) hr
  | send messageId formatted spare =>
      refine hP.mono ?_ id rfl
      exact fun _ _ _ hr => List.mem_of_ne_of_mem (by simp) hr
  | @defer request body r rest hstack henabled continuation =>
      have happroved := hP.enabled request body r (by rw [hstack]; exact List.mem_cons_self)
      rw [henabled] at happroved
      refine ⟨?_, fun _ _ _ _ _ => happroved.symm, hP.queued⟩
      intro request' body' r' hr
      rcases List.mem_cons.mp hr with heq | hr
      · cases heq
        exact henabled.trans happroved
      · exact hP.enabled request' body' r' (by rw [hstack]; exact List.mem_cons_of_mem _ hr)
  | deferFails hstack hdisabled continuation => exact hP.mono (fun _ _ _ hr => hr) id rfl
  | addHandler requestId handler parameter => exact hP.mono (fun _ _ _ hr => hr) id rfl
  | @returns request body r rest hstack =>
      have hrest : ∀ frame ∈ rest, frame ∈ s.stack := by
        rw [hstack]
        exact fun _ hframe => List.mem_cons_of_mem _ hframe
      refine ⟨fun request' body' r' hr => hP.enabled request' body' r' (hrest _ hr),
        fun request' body' r' hr => hP.continued request' body' r' (hrest _ hr), ?_⟩
      intro hne
      by_cases hcontinuation : r.continuation = none
      · simp only [hcontinuation, Option.map_none, Option.toList_none, List.append_nil] at hne
        exact hP.queued hne
      · exact hP.continued request body r (by rw [hstack]; exact List.mem_cons_self) hcontinuation
  | sent hstack =>
      refine hP.mono ?_ id rfl
      rw [hstack]
      exact fun _ _ _ hr => List.mem_cons_of_mem _ hr
  | throw hstack =>
      refine hP.mono ?_ id rfl
      rw [hstack]
      exact fun _ _ _ hr => List.mem_cons_of_mem _ hr

end ServerCalls

namespace Chained

open ServerCalls

variable [Inhabited α] {packer : Packer} {s t : Chained κ γ α} {e : ServerCall κ γ α}

theorem step_server (hs : s.step packer e = some t) :
    s.server.step packer e = some t.server ∧
      t.chains = s.server.nextChains packer s.chains e := by
  rcases Option.map_eq_some_iff.mp hs with ⟨server, hserver, rfl⟩
  exact ⟨hserver, rfl⟩

omit [Inhabited α] in
theorem inv_init (apartment : Bool) : (init apartment : Chained κ γ α).Inv := by
  refine ⟨⟨List.nodup_nil, ?_, ?_, fun _ _ => rfl⟩, ⟨?_, ?_, ?_⟩⟩
  · exact fun x hx => absurd hx List.not_mem_nil
  · exact fun c token state hc => by cases hc
  · exact fun _ _ _ hmem => absurd hmem List.not_mem_nil
  · exact fun _ _ _ hmem => absurd hmem List.not_mem_nil
  · exact fun hqueue => absurd rfl hqueue

omit [Inhabited α] in
/-- As many tasks as waiting chains. -/
theorem Inv.pending (hI : s.Inv) :
    s.server.queue.length = s.chains.waiting s.server.requests := by
  have hnodup : (s.server.queue.map Queued.request).Nodup := by
    have hall := hI.follows.nodup
    rw [entries, List.map_append, List.nodup_append', tasks, List.map_map] at hall
    exact hall.2.1
  rw [Chains.waiting, ← List.length_map Queued.request, ← List.toFinset_card_of_nodup hnodup]
  congr 1
  ext c
  rw [List.mem_toFinset, Finset.mem_filter, Finset.mem_range]
  constructor
  · intro hc
    rcases List.mem_map.mp hc with ⟨q, hq, rfl⟩
    have hchain := hI.follows.chain _ (List.mem_append_right _ (List.mem_map_of_mem hq))
    refine ⟨?_, by simp [hchain, ChainState.isDeferred]⟩
    by_contra hge
    rw [hI.follows.known q.request (by omega)] at hchain
    cases hchain
  · rintro ⟨-, hdeferred⟩
    rcases (Option.any_eq_true _ _).mp hdeferred with ⟨⟨token, state⟩, hchain, hstate⟩
    cases state with
    | running last => cases hstate
    | ended => cases hstate
    | deferred k =>
        rcases List.mem_append.mp (hI.follows.live c token _ hchain (by simp)) with hcall | htask
        · rcases List.mem_filterMap.mp hcall with ⟨frame, -, hframe⟩
          cases frame with
          | invocation request body r => cases hframe
          | sending view message => cases hframe
        · rcases List.mem_map.mp htask with ⟨q, hq, heq⟩
          rw [Prod.mk.injEq] at heq
          rw [← heq.1]
          exact List.mem_map_of_mem hq

omit [Inhabited α] in
/-- The innermost call, when it is a handler or a continuation. -/
theorem stack_of_innermost {c : ℕ} (h : s.server.innermost = some c) :
    ∃ body r rest, s.server.stack = .invocation c body r :: rest := by
  simp only [innermost] at h
  split at h
  · rename_i request body r rest hstack
    cases h
    exact ⟨body, r, rest, hstack⟩
  · cases h

omit [Inhabited α] in
theorem innermost_of_stack {c : ℕ} {body : Body κ γ α} {r : Response γ}
    {rest : List (ServerFrame κ γ α)} (h : s.server.stack = .invocation c body r :: rest) :
    s.server.innermost = some c := by
  simp only [innermost, h]

omit [Inhabited α] in
theorem innermost_of_sending {view : View} {message : List UInt8}
    {rest : List (ServerFrame κ γ α)} (h : s.server.stack = .sending view message :: rest) :
    s.server.innermost = none := by
  simp only [innermost, h]

omit [Inhabited α] in
/-- Its chain is in front of the others. -/
theorem Inv.front (hI : s.Inv) {c : ℕ} {body : Body κ γ α} {r : Response γ}
    {rest : List (ServerFrame κ γ α)} (h : s.server.stack = .invocation c body r :: rest) :
    Follows ((c, ⟨r.token, .running r.continuation⟩) :: (calls rest ++ tasks s.server.queue))
      s.server.requests s.chains := by
  have hF := hI.follows
  rwa [entries, h, calls_invocation, List.cons_append] at hF

/-- A task is taken out of the queue and put in front. -/
theorem tasks_perm {queue : List (Queued γ)} {i : ℕ} {q : Queued γ} (h : queue[i]? = some q)
    (calls : List (ℕ × Chain γ)) :
    (calls ++ tasks queue).Perm
      ((q.request, ⟨q.task.token, .deferred q.task.continuation⟩) ::
        (calls ++ tasks (queue.eraseIdx i))) := by
  rcases List.getElem?_eq_some_iff.mp h with ⟨hi, rfl⟩
  have hperm := (List.getElem_cons_eraseIdx_perm hi).symm.map fun q : Queued γ =>
    (q.request, (⟨q.task.token, .deferred q.task.continuation⟩ : Chain γ))
  exact (hperm.append_left calls).trans List.perm_middle

/-- The chains follow every step. -/
theorem follows_step (hI : s.Inv) {server : ServerCalls κ γ α}
    (hs : s.server.step packer e = some server) :
    Follows server.entries server.requests (s.server.nextChains packer s.chains e) := by
  have hF := hI.follows
  cases steps_of_step hs with
  | message payload =>
      rw [nextChains]
      cases hstarted : s.server.started packer payload with
      | none =>
          rcases message_of_not_started hstarted with ⟨hstack, hqueue, hrequests, -⟩
          rw [entries, hstack, hqueue, hrequests]
          exact hF
      | some token =>
          rcases message_of_started hstarted with
            ⟨id, d', d, body, -, -, hstack, hqueue, hrequests, -⟩
          rw [entries, hstack, hqueue, hrequests, calls_invocation, List.cons_append]
          exact hF.start token none
  | runTask hq =>
      rw [nextChains, hq, Option.map_some, Chains.goOn_some]
      have hfront := hF.perm (tasks_perm hq _)
      exact hfront.change fun _ => .running none
  | respond hstack responseId value spare => exact hF
  | send messageId formatted spare => exact hF
  | @defer c body r rest hstack henabled continuation =>
      have happroved := hI.permitted.enabled c body r (by rw [hstack]; exact List.mem_cons_self)
      rw [nextChains, innermost_of_stack hstack, ← happroved, if_pos henabled]
      exact (hI.front hstack).change fun _ => .running continuation
  | @deferFails c body r rest hstack hdisabled continuation =>
      have happroved := hI.permitted.enabled c body r (by rw [hstack]; exact List.mem_cons_self)
      rw [nextChains, ← happroved, if_neg (Bool.eq_false_iff.mp hdisabled)]
      exact hF
  | addHandler requestId handler parameter => exact hF
  | @returns c body r rest hstack =>
      rw [nextChains, innermost_of_stack hstack, Chains.goOn_some]
      have hfront := hI.front hstack
      cases hk : r.continuation with
      | none =>
          rw [hk] at hfront
          have hleave := hfront.leave (f := ChainState.finish) rfl
          simpa [entries] using hleave
      | some k =>
          rw [hk] at hfront
          apply (hfront.change ChainState.finish).perm
          simp only [entries, tasks, Option.map_some, Option.toList_some, List.map_append,
            List.map_cons, List.map_nil, ← List.append_assoc]
          exact (List.perm_append_singleton _ _).symm
  | sent hstack =>
      rw [nextChains, innermost_of_sending hstack, Chains.goOn_none]
      rw [entries, hstack] at hF
      exact hF
  | @throw frame rest hstack =>
      cases frame with
      | invocation c body r =>
          rw [nextChains, innermost_of_stack hstack, Chains.goOn_some]
          exact (hI.front hstack).leave (f := fun _ => .ended) rfl
      | sending view message =>
          rw [nextChains, innermost_of_sending hstack, Chains.goOn_none]
          rw [entries, hstack] at hF
          exact hF

theorem Inv.step (hI : s.Inv) (hs : s.step packer e = some t) : t.Inv := by
  rcases step_server hs with ⟨hserver, hchains⟩
  refine ⟨?_, permitted_step hI.permitted hserver⟩
  rw [hchains]
  exact follows_step hI hserver

/-! ## Deferral -/

omit [Inhabited α] in
/-- The chain of the innermost call. -/
theorem Inv.innermost_chain (hI : s.Inv) {c : ℕ} {body : Body κ γ α} {r : Response γ}
    {rest : List (ServerFrame κ γ α)} (h : s.server.stack = .invocation c body r :: rest) :
    s.chains c = some ⟨r.token, .running r.continuation⟩ :=
  (hI.front h).chain (c, _) List.mem_cons_self

theorem start_step (hI : s.Inv) (hs : s.step packer e = some t) (payload : List UInt8)
    (he : e = .message payload) : t.server.stack = s.server.stack ∨
      ∃ id d' token d body, packer.id.decode payload = some (id, d') ∧
        packer.token.decode d' = some (token, d) ∧
        t.server.stack = .invocation s.server.requests body ⟨token, s.server.apartment, none⟩ ::
          s.server.stack ∧
        s.chains s.server.requests = none ∧
        t.chains s.server.requests = some ⟨token, .running none⟩ := by
  rcases step_server hs with ⟨hserver, hchains⟩
  rw [he, ServerCalls.step, Option.some.injEq] at hserver
  rw [he, nextChains] at hchains
  rw [hchains, ← hserver]
  cases hstarted : s.server.started packer payload with
  | none => exact .inl (message_of_not_started hstarted).1
  | some token =>
      rcases message_of_started hstarted with ⟨id, d', d, body, hid, htoken, hstack, -⟩
      exact .inr ⟨id, d', token, d, body, hid, htoken, hstack,
        hI.follows.known s.server.requests le_rfl, Function.update_self _ _ _⟩

theorem tokens_step (hI : s.Inv) (hs : s.step packer e = some t) (c : ℕ) (chain : Chain γ)
    (hc : s.chains c = some chain) : ∃ state, t.chains c = some ⟨chain.token, state⟩ := by
  rw [(step_server hs).2]
  have hsame : ∃ state, s.chains c = some ⟨chain.token, state⟩ := ⟨chain.state, hc⟩
  cases e with
  | message payload =>
      cases hstarted : s.server.started packer payload with
      | none =>
          simp only [nextChains, hstarted]
          exact hsame
      | some token =>
          have hne : c ≠ s.server.requests := by
            intro heq
            rw [heq, hI.follows.known s.server.requests le_rfl] at hc
            cases hc
          simp only [nextChains, hstarted, Function.update_of_ne hne]
          exact hsame
  | runTask i => exact Chains.token_goOn hc _ _
  | defer continuation =>
      by_cases hapartment : s.server.apartment
      · rw [nextChains, if_pos hapartment]
        exact Chains.token_goOn hc _ _
      · rw [nextChains, if_neg hapartment]
        exact hsame
  | finish => exact Chains.token_goOn hc _ _
  | throw => exact Chains.token_goOn hc _ _
  | respond responseId value spare => exact hsame
  | send messageId formatted spare => exact hsame
  | addHandler requestId handler parameter => exact hsame

theorem respond_step (hI : s.Inv) (hs : s.step packer e = some t) (responseId : Int32)
    (value spare : List UInt8) (he : e = .respond responseId value spare) :
    ∃ c chain view, s.server.innermost = some c ∧ s.chains c = some chain ∧
      t.server.stack = .sending view (packer.id.encode responseId ++
        (packer.token.encode chain.token ++ value)) :: s.server.stack := by
  have hserver := (step_server hs).1
  simp only [he, ServerCalls.step] at hserver
  split at hserver
  · rename_i c body r rest hstack
    rw [Option.some.injEq] at hserver
    rw [← hserver]
    exact ⟨c, _, _, innermost_of_stack hstack, hI.innermost_chain hstack, rfl⟩
  · cases hserver

theorem finish_step (hI : s.Inv) (hs : s.step packer e = some t) (c : ℕ) (he : e = .finish)
    (hinnermost : s.server.innermost = some c) :
    ∃ token last, s.chains c = some ⟨token, .running last⟩ ∧
      t.server.queue = s.server.queue ++ (last.map fun k => ⟨⟨token, k⟩, c⟩).toList := by
  have hserver := (step_server hs).1
  rcases stack_of_innermost hinnermost with ⟨body, r, rest, hstack⟩
  simp only [he, ServerCalls.step, hstack, Option.some.injEq] at hserver
  rw [← hserver]
  exact ⟨r.token, r.continuation, hI.innermost_chain hstack, rfl⟩

theorem others_step (hs : s.step packer e = some t)
    (hfinish : e = .finish → s.server.innermost = none) (htask : ∀ i, e ≠ .runTask i) :
    t.server.queue = s.server.queue := by
  have hserver := (step_server hs).1
  revert hfinish htask
  generalize t.server = server at hserver
  intro hfinish htask
  cases steps_of_step hserver with
  | message payload =>
      cases hstarted : s.server.started packer payload with
      | none => exact (message_of_not_started hstarted).2.1
      | some token =>
          rcases message_of_started hstarted with ⟨id, d', d, body, -, -, -, hqueue, -⟩
          exact hqueue
  | @runTask i q hq => exact absurd rfl (htask i)
  | returns hstack =>
      have hnone := hfinish rfl
      rw [innermost_of_stack hstack] at hnone
      cases hnone
  | respond hstack responseId value spare => rfl
  | send messageId formatted spare => rfl
  | defer hstack henabled continuation => rfl
  | deferFails hstack hdisabled continuation => rfl
  | addHandler requestId handler parameter => rfl
  | sent hstack => rfl
  | throw hstack => rfl

theorem resume_step (hI : s.Inv) (hs : s.step packer e = some t) (i : ℕ) (he : e = .runTask i) :
    ∃ c token k, s.server.queue[i]? = some ⟨⟨token, k⟩, c⟩ ∧
      s.chains c = some ⟨token, .deferred k⟩ ∧
      t.server.queue = s.server.queue.eraseIdx i ∧
      t.server.stack = .invocation c (.continuation k) ⟨token, true, none⟩ :: s.server.stack := by
  have hserver := (step_server hs).1
  rw [he] at hserver
  rcases Option.map_eq_some_iff.mp hserver with ⟨q, hq, ht⟩
  rw [← ht]
  refine ⟨q.request, q.task.token, q.task.continuation, hq, ?_, rfl, rfl⟩
  exact hI.follows.chain _
    (List.mem_append_right _ (List.mem_map_of_mem (List.mem_of_getElem? hq)))

theorem noQueue_step (hI : s.Inv) (hs : s.step packer e = some t) (continuation : Option γ)
    (he : e = .defer continuation) (hapartment : s.server.apartment = false) :
    t = { s with server := { s.server with thrown := true } } := by
  rcases Option.map_eq_some_iff.mp hs with ⟨server, hserver, rfl⟩
  simp only [he, ServerCalls.step] at hserver
  split at hserver
  · rename_i c body r rest hstack
    have henabled := hI.permitted.enabled c body r (by rw [hstack]; exact List.mem_cons_self)
    rw [hapartment] at henabled
    simp only [henabled, Bool.false_eq_true, if_false, Option.some.injEq] at hserver
    rw [he, nextChains, if_neg (Bool.eq_false_iff.mp hapartment), ← hserver]
  · cases hserver

theorem deferrals_step (hI : s.Inv) (hs : s.step packer e = some t) : Deferrals packer s e t where
  start := start_step hI hs
  tokens := tokens_step hI hs
  respond := respond_step hI hs
  finish := finish_step hI hs
  others := others_step hs
  resume := resume_step hI hs
  pending := (hI.step hs).pending
  noQueue := noQueue_step hI hs

end Chained

/-- Whatever handlers and continuations do, and in whatever order messages and tasks come:
chains keep their tokens, and a continuation is put into the queue and run once, on behalf of
the request that its chain has started with. -/
theorem deferrals_keep_chains [Inhabited α] (packer : Packer) (apartment : Bool)
    (calls : List (ServerCall κ γ α)) :
    Through (Chained.step packer) (Deferrals packer) (Chained.init apartment) calls :=
  through_of_step Chained.Inv (fun _ _ _ hI hs => ⟨hI.step hs, Chained.deferrals_step hI hs⟩)
    (Chained.inv_init apartment) calls

-- a handler defers, and its continuation defers once more
example : ∃ s : Chained ℕ ℕ ℕ, run (Chained.step Packer.varint) (.init true)
      [.addHandler 1 10 none, .message [2, 7], .defer (some 100), .finish, .runTask 0,
        .defer (some 200), .finish] = some s ∧
    s.chains 0 = some ⟨7, .deferred 200⟩ ∧ s.server.queue = [⟨⟨7, 200⟩, 0⟩] :=
  ⟨_, rfl, rfl, rfl⟩

end CohesionIpc.Strmd
