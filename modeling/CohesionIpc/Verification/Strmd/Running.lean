import CohesionIpc.Model.Strmd.ClientCalls
import CohesionIpc.Model.Strmd.ServerCalls

/-! Callbacks and handlers run in their places in the maps; whatever they call must leave
those places alone. -/

namespace CohesionIpc.Strmd

open Transition

variable {κ γ α : Type*}

/-! ## The client -/

/-- The deleters that a call runs. The multi-response form of `request` runs none: the handle
it is given goes on in the new one. -/
def HandleOp.releases (s : Client κ) : HandleOp κ → List Deleter
  | .subscribe h .. | .request h .. | .release h => s.handles h
  | .requestMany .. | .destroy => []

namespace ClientSession

variable {s : ClientSession κ} {iterator : Deleter} {entry : Entry κ}

theorem entry_insert_message (h : store.entry s iterator = some entry) (id : Int32)
    (callback : κ) :
    store.entry { s with messageCallbacks := (s.messageCallbacks.insert id callback).1 }
      iterator = some entry := by
  cases iterator with
  | message i =>
      rcases Option.map_eq_some_iff.mp h with ⟨n, hn, rfl⟩
      rw [store_entry_message, NodeMap.deref_insert_of_some hn, Option.map_some]
  | request j => exact h

theorem entry_insert_request (h : store.entry s iterator = some entry) (key : Int32 × UInt64)
    (callback : κ) :
    store.entry { s with callbacks := (s.callbacks.insert key callback).1 } iterator =
      some entry := by
  cases iterator with
  | message i => exact h
  | request j =>
      rcases Option.map_eq_some_iff.mp h with ⟨n, hn, rfl⟩
      rw [store_entry_request, NodeMap.deref_insert_of_some hn, Option.map_some]

theorem entry_foldl_chain (token : UInt64) (callback : List (Int32 × κ)) {r : Held κ}
    (h : store.entry r.session iterator = some entry) :
    store.entry (callback.foldl (Held.chain token) r).session iterator = some entry := by
  induction callback generalizing r with
  | nil => exact h
  | cons c callback ih =>
      apply ih
      rw [Held.chain_eq]
      exact entry_insert_request h _ _

end ClientSession

/-- A call erases the entries behind the deleters it runs and keeps all others. -/
theorem Client.entry_step {packer : Packer} {s t : Client κ} {op : HandleOp κ}
    (hs : s.step packer op = some t) {iterator : Deleter} {entry : Entry κ}
    (h : store.entry s.session iterator = some entry) :
    store.entry t.session iterator = if iterator ∈ op.releases s then none else some entry := by
  have hrelease : ∀ (grown : ClientSession κ) (handle : ℕ),
      store.entry grown iterator = some entry →
        store.entry (store.release grown (s.handles handle)) iterator =
          if iterator ∈ s.handles handle then none else some entry := by
    intro grown handle hgrown
    by_cases hmem : iterator ∈ s.handles handle
    · rw [if_pos hmem, Store.entry_release_of_mem hmem]
    · rw [if_neg hmem, Store.entry_release_of_notMem hmem, hgrown]
  cases op with
  | subscribe handle messageId callback =>
      simp only [step, Option.ite_none_right_eq_some, Option.some.injEq] at hs
      rcases hs with ⟨-, rfl⟩
      exact hrelease _ _ (ClientSession.entry_insert_message h _ _)
  | request handle id payload responseId callback =>
      simp only [step, Option.ite_none_right_eq_some, Option.some.injEq] at hs
      rcases hs with ⟨-, rfl⟩
      apply hrelease
      exact ClientSession.entry_insert_request (s := { s.session with
        buffer := packer.id.encode id ++ packer.token.encode s.session.token ++ payload
        token := s.session.token + 1 }) (by cases iterator <;> exact h) _ _
  | requestMany handle id payload callback =>
      simp only [step, Option.ite_none_right_eq_some, Option.some.injEq] at hs
      rcases hs with ⟨-, rfl⟩
      rw [HandleOp.releases, if_neg List.not_mem_nil]
      apply ClientSession.entry_foldl_chain
      cases iterator <;> exact h
  | release handle =>
      cases hs
      exact hrelease _ _ h
  | destroy =>
      simp only [step, Option.ite_none_right_eq_some, Option.some.injEq] at hs
      rcases hs with ⟨-, rfl⟩
      exact h

namespace ClientCalls

/-- Every callback that runs is in its map. -/
def InPlace (s : ClientCalls κ) : Prop :=
  ∀ iterator entry rest, .running iterator entry rest ∈ s.stack →
    store.entry s.client.session iterator = some entry

/-- No handle is given up that owns the entry of a running callback. -/
def ReleasesOthers (s : ClientCalls κ) (e : ClientCall κ) : Prop :=
  ∀ op spare, e = .call op spare → ∀ iterator entry rest,
    .running iterator entry rest ∈ s.stack → iterator ∉ op.releases s.client

variable {packer : Packer} {s t : ClientCalls κ} {e : ClientCall κ}

/-- A call adds no callback to those that run, and takes none away. -/
theorem call_running {op : HandleOp κ} {spare : List UInt8}
    (hs : s.step packer (.call op spare) = some t) :
    s.client.step packer op = some t.client ∧ ∀ iterator entry rest,
      .running iterator entry rest ∈ t.stack ↔ .running iterator entry rest ∈ s.stack := by
  rcases step_call hs with ⟨client, hclient, rfl⟩
  split
  · exact ⟨hclient, fun _ _ _ => by simp [send]⟩
  · exact ⟨hclient, fun _ _ _ => Iff.rfl⟩

theorem inPlace_step (hI : s.InPlace) (hothers : s.ReleasesOthers e)
    (hs : s.step packer e = some t) : t.InPlace := by
  cases e with
  | call op spare =>
      rcases call_running hs with ⟨hclient, hrunning⟩
      intro iterator entry rest hmem
      have hbefore := (hrunning _ _ _).mp hmem
      rw [Client.entry_step hclient (hI _ _ _ hbefore), if_neg (hothers _ _ rfl _ _ _ hbefore)]
  | message payload =>
      simp only [step] at hs
      split at hs
      · cases hs
        exact hI
      · cases hs
        exact hI
      · rcases Option.map_eq_some_iff.mp hs with ⟨found, hfound, rfl⟩
        intro iterator entry rest hmem
        rcases List.mem_cons.mp hmem with heq | hmem
        · cases heq
          exact hfound
        · exact hI _ _ _ hmem
  | finish =>
      simp only [step] at hs
      split at hs
      · cases hs
      · rename_i frame rest hstack
        cases hs
        intro iterator entry d hmem
        exact hI iterator entry d (by rw [hstack]; exact List.mem_cons_of_mem _ hmem)

/-- A running callback whose handle has been given up is not in its map. -/
theorem releasesOthers_of_inPlace (hI : s.InPlace) (hs : s.step packer e = some t)
    (hT : t.InPlace) : s.ReleasesOthers e := by
  rintro op spare rfl iterator entry rest hmem hreleased
  rcases call_running hs with ⟨hclient, hrunning⟩
  have hafter := hT _ _ _ ((hrunning _ _ _).mpr hmem)
  rw [Client.entry_step hclient (hI _ _ _ hmem), if_pos hreleased] at hafter
  cases hafter

end ClientCalls

/-! ## The server -/

namespace ServerCalls

/-- Every handler that runs is the one in the table. -/
def InPlace (s : ServerCalls κ γ α) : Prop :=
  ∀ id registration underlying argument, .handler id registration underlying argument ∈ s.bodies →
    ∃ h, s.handlers id = some h ∧ h.registration = registration ∧ h.underlying = underlying

/-- No handler is registered for the id of a handler that runs. -/
def RegistersOthers (s : ServerCalls κ γ α) (e : ServerCall κ γ α) : Prop :=
  ∀ id handler parameter, e = .addHandler id handler parameter →
    ∀ registration underlying argument,
      .handler id registration underlying argument ∉ s.bodies

/-- Registrations are numbered. -/
def Numbered (s : ServerCalls κ γ α) : Prop :=
  ∀ id h, s.handlers id = some h → h.registration < s.registrations

variable [Inhabited α] {packer : Packer} {s t : ServerCalls κ γ α} {e : ServerCall κ γ α}

omit [Inhabited α] in
/-- A handler that has been found stays, with the object of its argument changed at most. -/
theorem kept_callHandler {requestId : Int32} {h : Thunk κ α} (hh : s.handlers requestId = some h)
    (token : UInt64) (d : List UInt8) {id : Int32} {h' : Thunk κ α}
    (hh' : s.handlers id = some h') :
    ∃ h'', (s.callHandler requestId h token d).handlers id = some h'' ∧
      h''.registration = h'.registration ∧ h''.underlying = h'.underlying := by
  rcases handlers_callHandler s requestId h token d with ⟨-, hsame⟩ | ⟨x, -, hupdate⟩
  · exact ⟨h', by rw [hsame, hh'], rfl, rfl⟩
  · rw [hupdate]
    by_cases hid : id = requestId
    · rw [hid] at hh' ⊢
      cases hh.symm.trans hh'
      exact ⟨_, Function.update_self _ _ _, rfl, rfl⟩
    · exact ⟨h', by rw [Function.update_of_ne hid, hh'], rfl, rfl⟩

theorem numbered_step (hN : s.Numbered) (hs : s.step packer e = some t) : t.Numbered := by
  rcases step_cases hs with ⟨hhandlers, hregistrations, -⟩ |
    ⟨requestId, handler, parameter, -, rfl⟩ |
    ⟨payload, requestId, token, d, d', h, -, -, -, hh, rfl⟩
  · intro id h hh
    rw [hhandlers] at hh
    rw [hregistrations]
    exact hN id h hh
  · intro id h hh
    simp only [addHandler] at hh ⊢
    by_cases hid : id = requestId
    · rw [hid, Function.update_self] at hh
      cases hh
      exact Nat.lt_succ_self _
    · rw [Function.update_of_ne hid] at hh
      exact (hN id h hh).trans (Nat.lt_succ_self _)
  · intro id h' hh'
    rw [registrations_callHandler]
    rcases handlers_callHandler s requestId h token d with ⟨-, hsame⟩ | ⟨x, -, hupdate⟩
    · rw [hsame] at hh'
      exact hN id h' hh'
    · rw [hupdate] at hh'
      by_cases hid : id = requestId
      · rw [hid, Function.update_self] at hh'
        cases hh'
        exact hN requestId h hh
      · rw [Function.update_of_ne hid] at hh'
        exact hN id h' hh'

/-- A handler that is registered has another number than those before it. -/
theorem Numbered.ne_of_addHandler (hN : s.Numbered) {id : Int32} {handler : κ}
    {parameter : Option (Parameter α)} {h h' : Thunk κ α} (hh : s.handlers id = some h)
    (hh' : (s.addHandler id handler parameter).handlers id = some h') :
    h'.registration ≠ h.registration := by
  have hlt := hN id h hh
  simp only [addHandler, Function.update_self, Option.some.injEq] at hh'
  rw [← hh']
  exact hlt.ne'

theorem inPlace_step (hI : s.InPlace) (hothers : s.RegistersOthers e)
    (hs : s.step packer e = some t) : t.InPlace := by
  rcases step_cases hs with ⟨hhandlers, -, hbodies⟩ | ⟨requestId, handler, parameter, rfl, rfl⟩ |
    ⟨payload, requestId, token, d, d', h, -, -, -, hh, rfl⟩
  · intro id registration underlying argument hmem
    rw [hhandlers]
    rcases hbodies _ hmem with hold | ⟨k, hk⟩
    · exact hI _ _ _ _ hold
    · cases hk
  · intro id registration underlying argument hmem
    have hid : id ≠ requestId := by
      rintro rfl
      exact hothers _ _ _ rfl _ _ _ hmem
    simp only [addHandler, Function.update_of_ne hid]
    exact hI _ _ _ _ hmem
  · intro id registration underlying argument hmem
    have hold : .handler id registration underlying argument ∈ s.bodies →
        ∃ h'', (s.callHandler requestId h token d).handlers id = some h'' ∧
          h''.registration = registration ∧ h''.underlying = underlying := by
      intro hbefore
      rcases hI _ _ _ _ hbefore with ⟨h', hh', rfl, rfl⟩
      exact kept_callHandler hh token d hh'
    rcases bodies_callHandler s requestId h token d with hsame | hnew
    · exact hold (hsame ▸ hmem)
    · rw [hnew] at hmem
      rcases List.mem_cons.mp hmem with heq | hmem
      · cases heq
        exact kept_callHandler hh token d hh
      · exact hold hmem

theorem registersOthers_of_inPlace (hI : s.InPlace) (hN : s.Numbered)
    (hs : s.step packer e = some t) (hT : t.InPlace) : s.RegistersOthers e := by
  rintro id handler parameter rfl registration underlying argument hmem
  cases hs
  rcases hI _ _ _ _ hmem with ⟨h, hh, rfl, -⟩
  rcases hT id h.registration underlying argument hmem with ⟨h', hh', hsame, -⟩
  exact hN.ne_of_addHandler hh hh' hsame

end ServerCalls

/-- For every run of nested calls: the entry of every running callback stays in its map until
that has returned exactly when no call gives up the handle that owns the entry, and a running
handler is not replaced exactly when none is registered for its id. -/
theorem running_in_place_iff [Inhabited α] (packer : Packer) (apartment : Bool)
    {clientCalls : List (ClientCall κ)} {serverCalls : List (ServerCall κ γ α)}
    (hclient : (run (ClientCalls.step packer) .init clientCalls).isSome)
    (hserver : (run (ServerCalls.step packer) (.init apartment) serverCalls).isSome) :
    (Through (ClientCalls.step packer) (fun _ _ t => t.InPlace) .init clientCalls ↔
      Along (ClientCalls.step packer) ClientCalls.ReleasesOthers .init clientCalls) ∧
    (Through (ServerCalls.step packer) (fun _ _ t => t.InPlace) (.init apartment) serverCalls ↔
      Along (ServerCalls.step packer) ServerCalls.RegistersOthers (.init apartment)
        serverCalls) := by
  constructor
  · apply through_iff_along_of_step ClientCalls.InPlace
    · intro s e t hI hothers hs
      exact ⟨ClientCalls.inPlace_step hI hothers hs, ClientCalls.inPlace_step hI hothers hs⟩
    · exact fun s e t hI hs hT => ClientCalls.releasesOthers_of_inPlace hI hs hT
    · exact fun _ _ _ hmem => absurd hmem List.not_mem_nil
    · exact hclient
  · apply through_iff_along_of_step fun s => s.InPlace ∧ s.Numbered
    · intro s e t hI hothers hs
      have hnext := ServerCalls.inPlace_step hI.1 hothers hs
      exact ⟨⟨hnext, ServerCalls.numbered_step hI.2 hs⟩, hnext⟩
    · exact fun s e t hI hs hT => ServerCalls.registersOthers_of_inPlace hI.1 hI.2 hs hT
    · exact ⟨fun _ _ _ _ hmem => absurd hmem List.not_mem_nil, fun _ _ hh => by cases hh⟩
    · exact hserver

/-- A callback releases the handle of another entry, and a handler registers another one. -/
def releaseOther : List (ClientCall ℕ) :=
  [.call (.subscribe 0 1 10) [], .call (.subscribe 1 2 20) [], .message [2],
    .call (.release 1) [], .finish, .call (.release 0) []]

def registerOther : List (ServerCall ℕ ℕ ℕ) :=
  [.addHandler 1 10 none, .message [2, 1], .addHandler 2 20 none, .finish, .addHandler 1 11 none]

theorem running_in_place_iff_others :
    (Through (ClientCalls.step Packer.varint) (fun _ _ t => t.InPlace) .init releaseOther ↔
      Along (ClientCalls.step Packer.varint) ClientCalls.ReleasesOthers .init releaseOther) ∧
    (Through (ServerCalls.step Packer.varint) (fun _ _ t => t.InPlace) (.init false)
        registerOther ↔
      Along (ServerCalls.step Packer.varint) ServerCalls.RegistersOthers (.init false)
        registerOther) :=
  running_in_place_iff Packer.varint false (by rfl) (by rfl)

/-- A callback releases the handle that owns it, and a handler is registered anew while it
runs. -/
def releaseSelf : List (ClientCall ℕ) :=
  [.call (.subscribe 0 1 10) [], .message [2], .call (.release 0) []]

def registerSelf : List (ServerCall ℕ ℕ ℕ) :=
  [.addHandler 1 10 none, .message [2, 1], .addHandler 1 11 none]

/-- The function that is being executed has been destroyed. -/
theorem running_entry_removed :
    ¬ Through (ClientCalls.step Packer.varint) (fun _ _ t => t.InPlace) .init releaseSelf ∧
      ¬ Through (ServerCalls.step Packer.varint) (fun _ _ t => t.InPlace) (.init false)
        registerSelf := by
  constructor
  · intro h
    have hlast := (((h _ rfl).2 _ rfl).2 _ rfl).1
    exact absurd (hlast (.message 0) (.message 1 10) [] (List.mem_singleton.mpr rfl)) (by decide)
  · intro h
    have hlast := (((h _ rfl).2 _ rfl).2 _ rfl).1
    rcases hlast 1 0 10 none (List.mem_singleton.mpr rfl) with ⟨h', hh', hregistration, -⟩
    cases hh'
    cases hregistration

end CohesionIpc.Strmd
