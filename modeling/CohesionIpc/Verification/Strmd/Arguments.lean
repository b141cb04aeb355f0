import CohesionIpc.Verification.Strmd.Running

/-! The argument of a handler is one object in its thunk: every call of the handler decodes
into it, also while another call of the same handler has not returned. A handler whose parameter
is a reference looks at this object, one whose parameter is a value at a copy of its own. -/

namespace CohesionIpc.Strmd

open Transition

variable {κ γ α : Type*}

namespace ServerCalls

/-- What a running handler sees of its argument: its copy, or the object in its thunk, as long as
the thunk is there. -/
def seen (s : ServerCalls κ γ α) (id : Int32) (registration : ℕ) (argument : Argument α) :
    Option α :=
  match argument.copy with
  | some a => some a
  | none => ((s.handlers id).filter (·.registration = registration)).map Thunk.arg1

/-- Every running handler with an argument sees the value that was decoded for its call. -/
def OwnArguments (s : ServerCalls κ γ α) : Prop :=
  ∀ id registration underlying argument,
    .handler id registration underlying (some argument) ∈ s.bodies →
      s.seen id registration argument = some argument.decoded

/-- While a handler runs whose argument is a reference, a message for its id leaves the value in
the object as it is, and no handler is registered for that id. -/
structure SparesArguments (packer : Packer) (s : ServerCalls κ γ α) (e : ServerCall κ γ α) :
    Prop where
  message : ∀ payload id token d d' h x, e = .message payload →
    packer.id.decode payload = some (id, d') → packer.token.decode d' = some (token, d) →
    s.handlers id = some h → h.parameter = some x →
      ∀ registration underlying argument,
        .handler id registration underlying (some argument) ∈ s.bodies → argument.copy = none →
          (x.read d argument.decoded).1 = argument.decoded
  addHandler : ∀ id handler parameter, e = .addHandler id handler parameter →
    ∀ registration underlying argument,
      .handler id registration underlying (some argument) ∈ s.bodies → argument.copy ≠ none

variable {packer : Packer} {s t : ServerCalls κ γ α} {e : ServerCall κ γ α} {id : Int32}
  {registration : ℕ} {argument : Argument α} {h : Thunk κ α}

/-! ## What a handler sees -/

theorem seen_of_copy {a : α} (hcopy : argument.copy = some a) :
    s.seen id registration argument = some a := by
  simp only [seen, hcopy]

/-- A copy is looked at wherever the table has got to. -/
theorem seen_copied (hcopy : argument.copy ≠ none) :
    t.seen id registration argument = s.seen id registration argument := by
  obtain ⟨a, ha⟩ := Option.ne_none_iff_exists'.mp hcopy
  rw [seen_of_copy ha, seen_of_copy ha]

theorem seen_of_handlers (hid : t.handlers id = s.handlers id) :
    t.seen id registration argument = s.seen id registration argument := by
  simp only [seen, hid]

theorem seen_referred (hcopy : argument.copy = none) {a : α} :
    s.seen id registration argument = some a ↔
      ∃ h, s.handlers id = some h ∧ h.registration = registration ∧ h.arg1 = a := by
  simp only [seen, hcopy, Option.map_eq_some_iff, Option.filter_eq_some_iff, decide_eq_true_eq,
    and_assoc]

/-- A handler that has just been called sees what was decoded. -/
theorem seen_pass (x : Parameter α) (hh : s.handlers id = some h) :
    s.seen id h.registration (x.pass h.arg1) = some h.arg1 := by
  cases hx : x.reference with
  | false => exact seen_of_copy (by simp [Parameter.pass, hx])
  | true =>
      have hcopy : (x.pass h.arg1).copy = none := by simp [Parameter.pass, hx]
      exact (seen_referred hcopy).mpr ⟨h, hh, rfl, rfl⟩

/-! ## One step -/

theorem ownArguments_callHandler (hI : s.OwnArguments) {requestId : Int32} {token : UInt64}
    {d : List UInt8} (hh : s.handlers requestId = some h)
    (hspares : ∀ x, h.parameter = some x → ∀ registration underlying argument,
      .handler requestId registration underlying (some argument) ∈ s.bodies →
        argument.copy = none → (x.read d argument.decoded).1 = argument.decoded) :
    (s.callHandler requestId h token d).OwnArguments := by
  intro id registration underlying argument hmem
  have hbodies := bodies_callHandler s requestId h token d
  rcases handlers_callHandler s requestId h token d with ⟨hnone, hsame⟩ | ⟨x, hx, hupdate⟩
  · -- a handler without an argument
    rw [seen_of_handlers (congrFun hsame id)]
    rw [hnone] at hbodies
    rcases hbodies with hold | hnew
    · exact hI _ _ _ _ (hold ▸ hmem)
    · rw [hnew] at hmem
      rcases List.mem_cons.mp hmem with heq | hmem
      · cases heq
      · exact hI _ _ _ _ hmem
  · have hold : .handler id registration underlying (some argument) ∈ s.bodies →
        (s.callHandler requestId h token d).seen id registration argument =
          some argument.decoded := by
      intro hbefore
      have hseen := hI _ _ _ _ hbefore
      by_cases hcopy : argument.copy = none
      · obtain ⟨h', hh', hregistration, harg⟩ := (seen_referred hcopy).mp hseen
        rw [seen_referred hcopy, hupdate]
        by_cases heq : id = requestId
        · rw [heq] at hh' hbefore ⊢
          cases hh.symm.trans hh'
          refine ⟨_, Function.update_self _ _ _, hregistration, ?_⟩
          rw [harg]
          exact hspares x hx _ _ _ hbefore hcopy
        · exact ⟨h', by rw [Function.update_of_ne heq, hh'], hregistration, harg⟩
      · rw [seen_copied (s := s) hcopy]
        exact hseen
    rw [hx] at hbodies
    rcases hbodies with hsame | hnew
    · exact hold (hsame ▸ hmem)
    · rw [hnew] at hmem
      rcases List.mem_cons.mp hmem with heq | hmem
      · cases heq
        have hself : (s.callHandler requestId h token d).handlers requestId =
            some { h with arg1 := (x.read d h.arg1).1 } := by
          rw [hupdate, Function.update_self]
        exact seen_pass x hself
      · exact hold hmem

variable [Inhabited α]

theorem ownArguments_step (hI : s.OwnArguments) (hspares : s.SparesArguments packer e)
    (hs : s.step packer e = some t) : t.OwnArguments := by
  rcases step_cases hs with ⟨hhandlers, -, hbodies⟩ | ⟨requestId, handler, parameter, rfl, rfl⟩ |
    ⟨payload, requestId, token, d, d', h, rfl, hid, htoken, hh, rfl⟩
  · intro id registration underlying argument hmem
    rw [seen_of_handlers (congrFun hhandlers id)]
    rcases hbodies _ hmem with hold | ⟨k, hk⟩
    · exact hI _ _ _ _ hold
    · cases hk
  · intro id registration underlying argument hmem
    by_cases hne : id = requestId
    · rw [hne] at hmem
      rw [seen_copied (s := s) (hspares.addHandler _ _ _ rfl _ _ _ hmem)]
      exact hI _ _ _ _ (hne ▸ hmem)
    · have hkept : (s.addHandler requestId handler parameter).handlers id = s.handlers id := by
        simp only [ServerCalls.addHandler, Function.update_of_ne hne]
      rw [seen_of_handlers hkept]
      exact hI _ _ _ _ hmem
  · exact ownArguments_callHandler hI hh fun x hx =>
      hspares.message _ _ _ _ _ _ x rfl hid htoken hh hx

omit [Inhabited α] in
/-- What runs goes on running while a message is dispatched. -/
theorem mem_bodies_callHandler {body : Body κ γ α} (hmem : body ∈ s.bodies) (requestId : Int32)
    (h : Thunk κ α) (token : UInt64) (d : List UInt8) :
    body ∈ (s.callHandler requestId h token d).bodies := by
  rcases bodies_callHandler s requestId h token d with hsame | hnew
  · rw [hsame]
    exact hmem
  · rw [hnew]
    exact List.mem_cons_of_mem _ hmem

theorem sparesArguments_of_ownArguments (hI : s.OwnArguments) (hN : s.Numbered)
    (hs : s.step packer e = some t) (hT : t.OwnArguments) : s.SparesArguments packer e := by
  constructor
  · rintro payload id token d d' h x rfl hid htoken hh hx registration underlying argument hmem
      hcopy
    simp only [step, message, hid, htoken, hh, Option.some.injEq] at hs
    rw [← hs] at hT
    obtain ⟨h', hh', -, harg⟩ := (seen_referred hcopy).mp (hI _ _ _ _ hmem)
    cases hh.symm.trans hh'
    obtain ⟨h'', hh'', -, harg'⟩ := (seen_referred hcopy).mp
      (hT _ _ _ _ (mem_bodies_callHandler hmem id h token d))
    rcases handlers_callHandler s id h token d with ⟨hnone, -⟩ | ⟨x', hx', hupdate⟩
    · rw [hx] at hnone
      cases hnone
    · cases hx.symm.trans hx'
      rw [hupdate, Function.update_self, Option.some.injEq] at hh''
      rw [← hh'', harg] at harg'
      exact harg'
  · rintro id handler parameter rfl registration underlying argument hmem hcopy
    cases hs
    obtain ⟨h, hh, rfl, -⟩ := (seen_referred hcopy).mp (hI _ _ _ _ hmem)
    obtain ⟨h', hh', hsame, -⟩ := (seen_referred hcopy).mp (hT _ _ _ _ hmem)
    exact hN.ne_of_addHandler hh hh' hsame

end ServerCalls

/-- For every handler table and every nesting of calls: a handler sees its own argument for
its whole run exactly when, while a handler runs whose argument is a reference, no message for its
id comes that decodes to another value, and no handler is registered for its id. -/
theorem own_arguments_iff [Inhabited α] (packer : Packer) (apartment : Bool)
    {calls : List (ServerCall κ γ α)}
    (hrun : (run (ServerCalls.step packer) (.init apartment) calls).isSome) :
    Through (ServerCalls.step packer) (fun _ _ t => t.OwnArguments) (.init apartment) calls ↔
      Along (ServerCalls.step packer) (ServerCalls.SparesArguments packer) (.init apartment)
        calls := by
  apply through_iff_along_of_step fun s => s.OwnArguments ∧ s.Numbered
  · intro s e t hI hspares hs
    have hnext := ServerCalls.ownArguments_step hI.1 hspares hs
    exact ⟨⟨hnext, ServerCalls.numbered_step hI.2 hs⟩, hnext⟩
  · exact fun s e t hI hs hT => ServerCalls.sparesArguments_of_ownArguments hI.1 hI.2 hs hT
  · exact ⟨fun _ _ _ _ hmem => absurd hmem List.not_mem_nil, fun _ _ hh => by cases hh⟩
  · exact hrun

/-- A parameter of one byte. -/
def Parameter.byte (reference : Bool) : Parameter UInt8 where
  reference := reference
  read
    | [], a => (a, false)
    | b :: _, _ => (b, true)
  complete bytes a b h := by
    cases bytes with
    | nil => cases h
    | cons => rfl

/-- While a handler responds, another one is called; the client makes another request to that one
with another argument; and then the first one is called again with the same argument. The first
takes a reference, the other a value. -/
def callOther : List (ServerCall ℕ ℕ UInt8) :=
  [.addHandler 1 10 (some (.byte true)), .addHandler 2 20 (some (.byte false)), .message [2, 1, 5],
    .respond 7 [] [], .message [4, 2, 6], .respond 7 [] [], .message [4, 3, 8], .finish, .finish,
    .message [2, 4, 5]]

theorem own_arguments_iff_other :
    Through (ServerCalls.step Packer.varint) (fun _ _ t => t.OwnArguments) (.init false)
        callOther ↔
      Along (ServerCalls.step Packer.varint) (ServerCalls.SparesArguments Packer.varint)
        (.init false) callOther :=
  own_arguments_iff Packer.varint false (by rfl)

/-- While a handler responds, the client makes another request with the same id. -/
def callAgain (reference : Bool) : List (ServerCall ℕ ℕ UInt8) :=
  [.addHandler 1 10 (some (.byte reference)), .message [2, 1, 5], .respond 7 [] [],
    .message [2, 2, 6], .finish, .finish]

/-- The first call has got a reference to 5 and goes on with 6. -/
theorem nested_call_changes_argument :
    (∃ t, run (ServerCalls.step Packer.varint) (.init false) (callAgain true) = some t ∧
      t.bodies = [.handler 1 0 10 (some ⟨5, none⟩)] ∧ t.seen 1 0 ⟨5, none⟩ = some 6) ∧
    ¬ Through (ServerCalls.step Packer.varint) (fun _ _ t => t.OwnArguments) (.init false)
      (callAgain true) := by
  refine ⟨⟨_, rfl, rfl, rfl⟩, ?_⟩
  intro h
  have hlast := ((((h _ rfl).2 _ rfl).2 _ rfl).2 _ rfl).1
  cases hlast 1 0 10 ⟨5, none⟩ (List.mem_cons_of_mem _ (List.mem_singleton.mpr rfl))

/-- A call that has got a copy goes on with it. -/
example : ∃ t, run (ServerCalls.step Packer.varint) (.init false) (callAgain false) = some t ∧
    t.bodies = [.handler 1 0 10 (some ⟨5, some 5⟩)] ∧ t.seen 1 0 ⟨5, some 5⟩ = some 5 :=
  ⟨_, rfl, rfl, rfl⟩

end CohesionIpc.Strmd
