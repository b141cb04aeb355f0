import CohesionIpc.Verification.Strmd.Ownership

/-! Subscription handles own their subscriptions as long as no id is subscribed twice at a
time: `subscribe` takes the iterator of whatever entry `insert` finds. -/

namespace CohesionIpc.Strmd

open Transition

variable {κ : Type*}

/-- Every message with this id reaches the callback, with the deserializer behind the id. -/
def ClientSession.Reaches (packer : Packer) (s : ClientSession κ) (id : Int32) (callback : κ) :
    Prop :=
  ∀ payload d, packer.id.decode payload = some (id, d) →
    s.message packer payload = .call callback d

/-- What subscription handles promise of a call that leads from `s` to `t`. -/
structure SubscriptionsOwned (packer : Packer) (s : Tracked κ) (op : HandleOp κ) (t : Tracked κ) :
    Prop where
  /-- The deleters the call runs remove what their handle had registered. -/
  erasures : t.code.erasures = (s.owned.givenUp op).map some
  /-- A handle that is held gets the messages of its subscription. -/
  delivered : t.code.alive → ∀ h id callback, .message id callback ∈ t.owned.registered h →
    t.code.session.Reaches packer id callback
  /-- It gets them also after the release of any other handle. -/
  independent : t.code.alive → ∀ h h' id callback, h' ≠ h →
    .message id callback ∈ t.owned.registered h →
      (t.code.release h').session.Reaches packer id callback

def HandleOp.isSubscription : HandleOp κ → Bool
  | .request .. | .requestMany .. => false
  | _ => true

/-! ## One call -/

namespace ClientSession

variable {s : ClientSession κ} {packer : Packer}

theorem not_reaches {id : Int32} (hmessage : s.messageCallbacks.lookup id = none)
    (hrequest : ∀ d key callback, store.entry s d ≠ some (.request key callback)) (callback : κ) :
    ¬ s.Reaches packer id callback := by
  intro h
  have hid := packer.id.decode_encode id []
  have hcall := h _ _ hid
  rw [message_of_nobody hid hmessage] at hcall
  · cases hcall
  · intro n hn _
    obtain ⟨d, hd⟩ := (exists_entry_request s n.key n.value).mpr
      (Option.map_eq_some_iff.mpr ⟨n, NodeMap.find?_eq_some.mpr ⟨hn, rfl⟩, rfl⟩)
    exact hrequest d _ _ hd

/-- Once its entry is erased an id has no subscription. -/
theorem lookup_release {ds : List Deleter} {d : Deleter} {id : Int32} {c : κ} (hd : d ∈ ds)
    (hentry : store.entry s d = some (.message id c)) :
    (store.release s ds).messageCallbacks.lookup id = none := by
  rw [Option.eq_none_iff_forall_ne_some]
  intro callback' hlookup
  obtain ⟨d', hd'⟩ := (exists_entry_message _ _ _).mpr hlookup
  obtain ⟨hnot, hentry'⟩ := Store.entry_of_release hd'
  exact hnot (entry_inj hentry hentry' rfl ▸ hd)

end ClientSession

namespace Tracked

variable {s t : Tracked κ} {op : HandleOp κ} {packer : Packer}

/-- Handles that hold subscriptions only. -/
def Subscribed (s : Tracked κ) : Prop :=
  s.Inv ∧ ∀ h key callback, .request key callback ∉ s.owned.registered h

theorem Inv.reaches (hI : s.Inv) {h : ℕ} {id : Int32} {callback : κ}
    (hmem : .message id callback ∈ s.owned.registered h) :
    s.code.session.Reaches packer id callback := by
  intro payload d hid
  exact ClientSession.message_of_subscribed hid ((hI.lookup_messageCallbacks _ _).mpr ⟨h, hmem⟩)

theorem subscribed_step (hS : s.Subscribed) (hop : op.isSubscription)
    (hs : s.step packer op = some t) (hI : t.Inv) : t.Subscribed := by
  refine ⟨hI, ?_⟩
  rw [step, Option.map_eq_some_iff] at hs
  obtain ⟨code, -, rfl⟩ := hs
  intro h key callback hmem
  cases op with
  | subscribe h' messageId callback' =>
      simp only [Ownership.step] at hmem
      by_cases heq : h = h'
      · rw [heq, Function.update_self] at hmem
        simp at hmem
      · rw [Function.update_of_ne heq] at hmem
        exact hS.2 h key callback hmem
  | request => cases hop
  | requestMany => cases hop
  | release h' =>
      simp only [Ownership.step] at hmem
      by_cases heq : h = h'
      · rw [heq, Function.update_self] at hmem
        simp at hmem
      · rw [Function.update_of_ne heq] at hmem
        exact hS.2 h key callback hmem
  | destroy => exact hS.2 h key callback hmem

theorem subscriptionsOwned_of_new (hS : s.Subscribed) (hop : op.isSubscription)
    (hnew : SubscribesNewId s op) (hs : s.step packer op = some t) :
    t.Subscribed ∧ SubscriptionsOwned packer s op t := by
  have hleft : TokensLeft s op := by
    intro hissues
    cases op <;> cases hop <;> cases hissues
  have hapart : RequestsApart s op := by
    cases op <;> trivial
  obtain ⟨hI, herasures⟩ := inv_step hS.1 hleft hnew hapart hs
  refine ⟨subscribed_step hS hop hs hI, herasures, ?_, ?_⟩
  · intro _ h id callback hmem
    exact hI.reaches hmem
  · intro _ h h' id callback hne hmem
    have hkept : .message id callback ∈ (t.owned.step (.release h')).registered h := by
      simpa [Ownership.step, Function.update_of_ne hne.symm] using hmem
    exact (hI.release h').reaches hkept

/-- Where an id is subscribed again, the new handle does not have it or loses it to the
release of the handle that had it. -/
theorem new_of_subscriptionsOwned (hS : s.Subscribed) (hs : s.step packer op = some t)
    (hT : SubscriptionsOwned packer s op t) : SubscribesNewId s op := by
  cases op with
  | request => trivial
  | requestMany => trivial
  | release => trivial
  | destroy => trivial
  | subscribe h id callback =>
      intro h₀ callback₀ hmem
      rw [step, Option.map_eq_some_iff] at hs
      obtain ⟨code, hcode, rfl⟩ := hs
      simp only [Client.step, Option.ite_none_right_eq_some, Option.some.injEq] at hcode
      obtain ⟨halive, rfl⟩ := hcode
      obtain ⟨d, hd, hentry⟩ := hS.1.owned.entry_of_registered hmem
      -- the entry is there, so the call inserts nothing
      have hlookup := (hS.1.lookup_messageCallbacks id callback₀).mpr ⟨h₀, hmem⟩
      obtain ⟨n, hn, -⟩ := Option.map_eq_some_iff.mp hlookup
      have hsession :
          (s.code.put h (s.code.session.subscribe (s.code.handles h) id callback)).session
          = store.release s.code.session (s.code.handles h) := by
        simp only [Client.put, ClientSession.subscribe, ClientSession.reset,
          NodeMap.insert_of_some hn]
      have hrequest : ∀ d key callback,
          store.entry s.code.session d ≠ some (.request key callback) := by
        intro d key callback hd
        obtain ⟨h', hmem'⟩ := (hS.1.owned.registered_iff _).mp ⟨d, hd⟩
        exact hS.2 h' key callback hmem'
      have hregistered : Entry.message id callback ∈
          (s.owned.step (.subscribe h id callback)).registered h := by
        simp [Ownership.step]
      by_cases heq : h₀ = h
      · have hreach := hT.delivered halive h id callback hregistered
        simp only at hreach
        rw [hsession] at hreach
        refine ClientSession.not_reaches ?_ ?_ callback hreach
        · exact ClientSession.lookup_release (heq ▸ hd) hentry
        · exact fun d key callback hd => hrequest d key callback (Store.entry_of_release hd).2
      · have hreach := hT.independent halive h h₀ id callback heq hregistered
        have hapart : d ∉ s.code.handles h := fun hmem' => hS.1.owned.disjoint h₀ h heq hd hmem'
        simp only [Client.release, Client.put, ClientSession.reset] at hreach
        rw [Function.update_of_ne heq] at hreach
        simp only [ClientSession.subscribe, ClientSession.reset, NodeMap.insert_of_some hn]
          at hreach
        refine ClientSession.not_reaches ?_ ?_ callback hreach
        · refine ClientSession.lookup_release (c := callback₀) hd ?_
          rw [Store.entry_release_of_notMem hapart, hentry]
        · intro d key callback hd
          exact hrequest d key callback
            (Store.entry_of_release (Store.entry_of_release hd).2).2

end Tracked

/-! ## Runs -/

/-- In a run of subscriptions, releases and the end of the session, subscription handles
own their subscriptions throughout exactly when no call subscribes an id to which a handle,
its own included, still holds a subscription. -/
theorem subscriptions_owned_iff (packer : Packer) {ops : List (HandleOp κ)}
    (hops : ∀ op ∈ ops, op.isSubscription)
    (hrun : (run (Tracked.step packer) .init ops).isSome) :
    Through (Tracked.step packer) (SubscriptionsOwned packer) .init ops ↔
      Along (Tracked.step packer) SubscribesNewId .init ops := by
  have hsubscribed : (Tracked.init : Tracked κ).Subscribed :=
    ⟨Tracked.inv_init, fun _ _ _ h => absurd h List.not_mem_nil⟩
  apply through_iff_along Tracked.Subscribed (L := fun _ op => op.isSubscription)
  · intro s op t hS hop hnew hs
    exact Tracked.subscriptionsOwned_of_new hS hop hnew hs
  · intro s op t hS _ hs hT
    exact Tracked.new_of_subscriptionsOwned hS hs hT
  · exact hsubscribed
  · exact along_of_forall (fun op hop _ => hops op hop) _
  · exact hrun

/-- Two handles with subscriptions of their own, the first released and taken again. -/
theorem subscriptions_owned_iff_two_ids :
    Through (Tracked.step Packer.varint) (SubscriptionsOwned Packer.varint) (.init : Tracked ℕ)
        [.subscribe 0 1 10, .subscribe 1 2 20, .release 0, .subscribe 0 1 11] ↔
      Along (Tracked.step Packer.varint) SubscribesNewId .init
        [.subscribe 0 1 10, .subscribe 1 2 20, .release 0, .subscribe 0 1 11] :=
  subscriptions_owned_iff Packer.varint (by decide) (by rfl)

/-- A second subscription of an id is not inserted: its messages stay with the first
callback, and the second release erases through an iterator that is gone. -/
theorem subscribe_twice :
    (∃ t : Tracked ℕ, run (Tracked.step Packer.varint) .init
        [.subscribe 0 7 10, .subscribe 1 7 20, .release 0, .release 1] = some t ∧
      t.code.erasures = [none]) ∧
    ¬ Through (Tracked.step Packer.varint) (SubscriptionsOwned Packer.varint) (.init : Tracked ℕ)
      [.subscribe 0 7 10, .subscribe 1 7 20, .release 0, .release 1] := by
  refine ⟨⟨_, rfl, rfl⟩, ?_⟩
  intro h
  have hsecond := ((h _ rfl).2 _ rfl).1
  have hcall := hsecond.delivered rfl 1 7 20 (by decide) [14] [] (by decide)
  exact absurd hcall (by decide)

end CohesionIpc.Strmd
