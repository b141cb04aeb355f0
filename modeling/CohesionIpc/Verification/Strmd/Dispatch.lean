import CohesionIpc.Model.Strmd.ClientCalls

/-! `client_session::message` on arbitrary bytes: which callback runs, where its deserializer
is placed, and when decoding raises. -/

namespace CohesionIpc.Strmd

variable {κ : Type*}

def ClientSession.Pending (s : ClientSession κ) (responseId : Int32) : Prop :=
  ∃ token callback, s.callbacks.lookup (responseId, token) = some callback

/-- How a step from `s` to `t` treats an inbound message. -/
structure Dispatched (packer : Packer) (s : ClientCalls κ) (payload : List UInt8)
    (t : ClientCalls κ) : Prop where
  untouched : t.client = s.client ∧ t.buffer = s.buffer
  once : t.stack = s.stack ∨
    ∃ iterator entry rest, t.stack = .running iterator entry rest :: s.stack
  subscribed : ∀ id d callback, packer.id.decode payload = some (id, d) →
    s.client.session.messageCallbacks.lookup id = some callback →
      ∃ iterator, t.stack = .running iterator (.message id callback) d :: s.stack
  searched : ∀ id : Int32,
    s.client.session.callbacks.lowerBound ClientSession.rank (toLex (id.toInt, 0)) ≠
        s.client.session.callbacks.upperBound ClientSession.rank (toLex (id.toInt, 2 ^ 64 - 1)) ↔
      s.client.session.Pending id
  keyed : ∀ id d token rest, packer.id.decode payload = some (id, d) →
    s.client.session.messageCallbacks.lookup id = none → s.client.session.Pending id →
    packer.token.decode d = some (token, rest) →
      (∀ callback, s.client.session.callbacks.lookup (id, token) = some callback →
        ∃ iterator, t.stack = .running iterator (.request (id, token) callback) rest :: s.stack) ∧
      (s.client.session.callbacks.lookup (id, token) = none → t.stack = s.stack)
  /-- What follows an id that nobody waits for does not matter. -/
  nobody : ∀ id d, packer.id.decode payload = some (id, d) →
    s.client.session.messageCallbacks.lookup id = none → ¬ s.client.session.Pending id →
      t.stack = s.stack ∧ t.raised = false
  raised : t.raised = true ↔ packer.id.decode payload = none ∨
    ∃ id d, packer.id.decode payload = some (id, d) ∧
      s.client.session.messageCallbacks.lookup id = none ∧ s.client.session.Pending id ∧
      packer.token.decode d = none

namespace ClientSession

variable {s : ClientSession κ} {packer : Packer} {payload d rest : List UInt8} {id : Int32}
  {token : UInt64}

/-- The bounds differ exactly when a request waits, whatever its token is. -/
theorem bounds_ne_iff_pending (s : ClientSession κ) (id : Int32) :
    s.callbacks.lowerBound rank (toLex (id.toInt, 0)) ≠
        s.callbacks.upperBound rank (toLex (id.toInt, 2 ^ 64 - 1)) ↔ s.Pending id := by
  rw [bounds_ne_iff]
  constructor
  · rintro ⟨n, hn, rfl⟩
    refine ⟨n.key.2, n.value, ?_⟩
    rw [NodeMap.lookup, Option.map_eq_some_iff]
    exact ⟨n, NodeMap.find?_eq_some.mpr ⟨hn, rfl⟩, rfl⟩
  · rintro ⟨token, callback, hlookup⟩
    rcases Option.map_eq_some_iff.mp hlookup with ⟨n, hn, -⟩
    rcases NodeMap.find?_eq_some.mp hn with ⟨hmem, hkey⟩
    exact ⟨n, hmem, by rw [hkey]⟩

theorem select_of_subscribed (hid : packer.id.decode payload = some (id, d)) {callback : κ}
    (h : s.messageCallbacks.lookup id = some callback) :
    ∃ iterator, s.select packer payload = .call iterator d ∧
      store.entry s iterator = some (.message id callback) := by
  rcases Option.map_eq_some_iff.mp h with ⟨m, hm, rfl⟩
  rcases NodeMap.find?_eq_some.mp hm with ⟨hmem, rfl⟩
  refine ⟨.message m.address, by simp only [select, hid, hm], ?_⟩
  rw [store_entry_message, NodeMap.deref_eq_some.mpr ⟨hmem, rfl⟩, Option.map_some]

section

variable (hid : packer.id.decode payload = some (id, d))
  (hsub : s.messageCallbacks.lookup id = none)
include hid hsub

theorem select_of_pending (hpending : s.Pending id) :
    s.select packer payload =
      match packer.token.decode d with
      | none => .raised
      | some (token, d) =>
          match s.callbacks.find? (id, token) with
          | some i => .call (.request i.address) d
          | none => .ignored := by
  rw [NodeMap.lookup, Option.map_eq_none_iff] at hsub
  have hbounds := (bounds_ne_iff_pending s id).mpr hpending
  cases htoken : packer.token.decode d with
  | none => simp only [select, hid, hsub, if_pos hbounds, htoken]
  | some pair =>
      rcases pair with ⟨token, rest⟩
      cases hkey : s.callbacks.find? (id, token) with
      | none => simp only [select, hid, hsub, if_pos hbounds, htoken, hkey]
      | some i => simp only [select, hid, hsub, if_pos hbounds, htoken, hkey]

theorem select_of_nobody (hpending : ¬ s.Pending id) : s.select packer payload = .ignored := by
  rw [NodeMap.lookup, Option.map_eq_none_iff] at hsub
  simp only [select, hid, hsub, if_neg (mt (bounds_ne_iff_pending s id).mp hpending)]

theorem select_of_key (hpending : s.Pending id)
    (htoken : packer.token.decode d = some (token, rest))
    {callback : κ} (h : s.callbacks.lookup (id, token) = some callback) :
    ∃ iterator, s.select packer payload = .call iterator rest ∧
      store.entry s iterator = some (.request (id, token) callback) := by
  rcases Option.map_eq_some_iff.mp h with ⟨i, hi, rfl⟩
  rcases NodeMap.find?_eq_some.mp hi with ⟨hmem, hkey⟩
  refine ⟨.request i.address, by simp only [select_of_pending hid hsub hpending, htoken, hi], ?_⟩
  rw [store_entry_request, NodeMap.deref_eq_some.mpr ⟨hmem, rfl⟩, Option.map_some, hkey]

theorem select_of_no_key (hpending : s.Pending id)
    (htoken : packer.token.decode d = some (token, rest))
    (h : s.callbacks.lookup (id, token) = none) : s.select packer payload = .ignored := by
  rw [NodeMap.lookup, Option.map_eq_none_iff] at h
  simp only [select_of_pending hid hsub hpending, htoken, h]

theorem select_of_cut (hpending : s.Pending id) (htoken : packer.token.decode d = none) :
    s.select packer payload = .raised := by
  simp only [select_of_pending hid hsub hpending, htoken]

end

theorem select_eq_raised : s.select packer payload = .raised ↔
    packer.id.decode payload = none ∨ ∃ id d, packer.id.decode payload = some (id, d) ∧
      s.messageCallbacks.lookup id = none ∧ s.Pending id ∧ packer.token.decode d = none := by
  constructor
  · intro h
    cases hid : packer.id.decode payload with
    | none => exact .inl rfl
    | some pair =>
        rcases pair with ⟨id, d⟩
        refine .inr ⟨id, d, rfl, ?_⟩
        cases hsub : s.messageCallbacks.lookup id with
        | some callback =>
            rcases select_of_subscribed hid hsub with ⟨iterator, hcall, -⟩
            rw [h] at hcall
            cases hcall
        | none =>
            by_cases hpending : s.Pending id
            · refine ⟨rfl, hpending, ?_⟩
              cases htoken : packer.token.decode d with
              | none => rfl
              | some pair =>
                  rcases pair with ⟨token, rest⟩
                  cases hkey : s.callbacks.lookup (id, token) with
                  | none =>
                      rw [select_of_no_key hid hsub hpending htoken hkey] at h
                      cases h
                  | some callback =>
                      rcases select_of_key hid hsub hpending htoken hkey with ⟨iterator, hcall, -⟩
                      rw [h] at hcall
                      cases hcall
            · rw [select_of_nobody hid hsub hpending] at h
              cases h
  · rintro (hid | ⟨id, d, hid, hsub, hpending, htoken⟩)
    · simp only [select, hid]
    · exact select_of_cut hid hsub hpending htoken

end ClientSession

namespace ClientCalls

variable {packer : Packer} {s t : ClientCalls κ} {payload rest : List UInt8}
  {iterator : Deleter} {entry : Entry κ}

theorem message_of_call (hentry : store.entry s.client.session iterator = some entry)
    (hselect : s.client.session.select packer payload = .call iterator rest)
    (hs : s.step packer (.message payload) = some t) :
    t = { s with stack := .running iterator entry rest :: s.stack, raised := false } := by
  simp only [step, hselect, hentry, Option.map_some, Option.some.injEq] at hs
  exact hs.symm

theorem message_of_ignored (hselect : s.client.session.select packer payload = .ignored)
    (hs : s.step packer (.message payload) = some t) : t = { s with raised := false } := by
  simp only [step, hselect, Option.some.injEq] at hs
  exact hs.symm

theorem message_cases (packer : Packer) (s : ClientCalls κ) (payload : List UInt8) :
    ∃ t, s.step packer (.message payload) = some t ∧
      ((s.client.session.select packer payload = .raised ∧ t = { s with raised := true }) ∨
        (s.client.session.select packer payload = .ignored ∧ t = { s with raised := false }) ∨
        ∃ iterator entry rest, s.client.session.select packer payload = .call iterator rest ∧
          store.entry s.client.session iterator = some entry ∧
          t = { s with stack := .running iterator entry rest :: s.stack, raised := false }) := by
  rcases s.client.session.select_cases packer payload with ⟨hselect, -⟩ | ⟨hselect, -⟩ |
    ⟨iterator, entry, rest, hentry, hselect, -⟩
  · exact ⟨_, by simp only [step, hselect], .inl ⟨hselect, rfl⟩⟩
  · exact ⟨_, by simp only [step, hselect], .inr (.inl ⟨hselect, rfl⟩)⟩
  · exact ⟨_, by simp only [step, hselect, hentry, Option.map_some],
      .inr (.inr ⟨iterator, entry, rest, hselect, hentry, rfl⟩)⟩

end ClientCalls

open ClientSession ClientCalls in
/-- For every set of subscriptions and pending requests and every byte string. -/
theorem message_dispatched (packer : Packer) (s : ClientCalls κ) (payload : List UInt8) :
    ∃ t, s.step packer (.message payload) = some t ∧ Dispatched packer s payload t := by
  rcases message_cases packer s payload with ⟨t, hs, hcases⟩
  refine ⟨t, hs, ?_, ?_, ?_, bounds_ne_iff_pending _, ?_, ?_, ?_⟩
  · rcases hcases with ⟨-, rfl⟩ | ⟨-, rfl⟩ | ⟨iterator, entry, rest, -, -, rfl⟩ <;> exact ⟨rfl, rfl⟩
  · rcases hcases with ⟨-, rfl⟩ | ⟨-, rfl⟩ | ⟨iterator, entry, rest, -, -, rfl⟩
    · exact .inl rfl
    · exact .inl rfl
    · exact .inr ⟨iterator, entry, rest, rfl⟩
  · intro id d callback hid hsub
    rcases select_of_subscribed hid hsub with ⟨iterator, hselect, hentry⟩
    exact ⟨iterator, by rw [message_of_call hentry hselect hs]⟩
  · intro id d token rest hid hsub hpending htoken
    refine ⟨fun callback hkey => ?_, fun hkey => ?_⟩
    · rcases select_of_key hid hsub hpending htoken hkey with ⟨iterator, hselect, hentry⟩
      exact ⟨iterator, by rw [message_of_call hentry hselect hs]⟩
    · rw [message_of_ignored (select_of_no_key hid hsub hpending htoken hkey) hs]
  · intro id d hid hsub hpending
    rw [message_of_ignored (select_of_nobody hid hsub hpending) hs]
    exact ⟨rfl, rfl⟩
  · rw [← select_eq_raised]
    rcases hcases with ⟨hselect, rfl⟩ | ⟨hselect, rfl⟩ |
      ⟨iterator, entry, rest, hselect, -, rfl⟩ <;>
      simp [hselect]

end CohesionIpc.Strmd
