import CohesionIpc.Model.Strmd.Client

/-! The handles of a client refine ownership: calls that register under keys nobody holds
keep each handle the owner of exactly what its latest call registered. -/

namespace CohesionIpc.Strmd

variable {κ : Type*}

/-- The purpose of the handles: each owns what the last call that took it has registered,
until it is released. `issued` counts the requests, so it names their tokens. -/
structure Ownership (κ : Type*) where
  registered : ℕ → List (Entry κ)
  issued : ℕ

namespace Ownership

def init : Ownership κ := ⟨fun _ => [], 0⟩

/-- The token of the next request. -/
def token (o : Ownership κ) : UInt64 := UInt64.ofNat (o.issued + 1)

def step (o : Ownership κ) : HandleOp κ → Ownership κ
  | .subscribe h messageId callback =>
      { o with registered := Function.update o.registered h [.message messageId callback] }
  | .request h _ _ responseId callback =>
      ⟨Function.update o.registered h [.request (responseId, o.token) callback], o.issued + 1⟩
  | .requestMany h _ _ callback =>
      ⟨Function.update o.registered h
        (callback.reverse.map fun c => .request (c.1, o.token) c.2), o.issued + 1⟩
  | .release h => { o with registered := Function.update o.registered h [] }
  | .destroy => o

/-- What the handle that a call acts on owns before the call. -/
def givenUp (o : Ownership κ) (op : HandleOp κ) : List (Entry κ) :=
  match op.handle? with
  | some h => o.registered h
  | none => []

end Ownership

/-- The handles beside what they are for. -/
structure Tracked (κ : Type*) where
  code : Client κ
  owned : Ownership κ

namespace Tracked

def init : Tracked κ := ⟨.init, .init⟩

def step (packer : Packer) (s : Tracked κ) (op : HandleOp κ) : Option (Tracked κ) :=
  (s.code.step packer op).map fun code => ⟨code, s.owned.step op⟩

end Tracked

/-! ## Admitted calls -/

/-- A subscription is made only to an id to which no handle holds one. -/
def SubscribesNewId (s : Tracked κ) : HandleOp κ → Prop
  | .subscribe _ messageId _ => ∀ h callback, .message messageId callback ∉ s.owned.registered h
  | _ => True

/-- A multi-response request is made with a handle that holds nothing, and for distinct
response ids. -/
def RequestsApart (s : Tracked κ) : HandleOp κ → Prop
  | .requestMany h _ _ callback => s.owned.registered h = [] ∧ (callback.map Prod.fst).Nodup
  | _ => True

/-- The tokens have not been used up. -/
def TokensLeft (s : Tracked κ) (op : HandleOp κ) : Prop :=
  op.issues → s.owned.issued + 1 < 2 ^ 64

/-! ## The invariant -/

namespace Tracked

/-- The code's handles own what they are meant to own, and no token in use comes again. -/
structure Inv (s : Tracked κ) : Prop where
  owned : store.Owned s.code.session s.code.handles s.owned.registered
  token : s.code.session.token = s.owned.token
  issued : ∀ h key callback, .request key callback ∈ s.owned.registered h →
    key.2.toNat ≤ s.owned.issued

theorem inv_init : (init : Tracked κ).Inv where
  owned :=
    { nodup _ := List.nodup_nil
      disjoint _ _ _ _ h := absurd h List.not_mem_nil
      held _ := rfl
      complete d e h := by cases d <;> exact absurd h (by simp [init, Client.init,
        ClientSession.init, NodeMap.empty, NodeMap.deref]) }
  token := rfl
  issued h key callback hmem := absurd hmem List.not_mem_nil

variable {s t : Tracked κ} {op : HandleOp κ} {packer : Packer}

theorem Inv.lookup_messageCallbacks (hI : s.Inv) (id : Int32) (callback : κ) :
    s.code.session.messageCallbacks.lookup id = some callback ↔
      ∃ h, .message id callback ∈ s.owned.registered h := by
  rw [← ClientSession.exists_entry_message, hI.owned.registered_iff]

theorem Inv.lookup_callbacks (hI : s.Inv) (key : Int32 × UInt64) (callback : κ) :
    s.code.session.callbacks.lookup key = some callback ↔
      ∃ h, .request key callback ∈ s.owned.registered h := by
  rw [← ClientSession.exists_entry_request, hI.owned.registered_iff]

theorem Inv.find?_token (hI : s.Inv) (hleft : s.owned.issued + 1 < 2 ^ 64) (id : Int32) :
    s.code.session.callbacks.find? (id, s.owned.token) = none := by
  rw [← Option.map_eq_none_iff (f := Node.value), ← NodeMap.lookup,
    Option.eq_none_iff_forall_ne_some]
  intro callback hlookup
  obtain ⟨h, hmem⟩ := (hI.lookup_callbacks _ _).mp hlookup
  have hle := hI.issued h _ _ hmem
  simp only [Ownership.token, UInt64.toNat_ofNat'] at hle
  omega

theorem token_release (session : ClientSession κ) (ds : List Deleter) :
    (store.release session ds).token = session.token := by
  induction ds generalizing session with
  | nil => rfl
  | cons d ds ih =>
      rw [Store.release, List.foldl_cons, ← Store.release, ih]
      cases d <;> rfl

/-- A call that takes the handle `h` gives up what the handle owned and leaves it the owner
of what the call registered. -/
theorem Inv.put (hI : s.Inv) {h : ℕ} {r : ClientSession.Held κ} {es : List (Entry κ)} {issued : ℕ}
    (hr : r.Takes s.code.session (s.code.handles h) es (UInt64.ofNat (issued + 1)))
    (hle : s.owned.issued ≤ issued)
    (hes : ∀ key callback, .request key callback ∈ es → key.2.toNat ≤ issued) :
    r.erasures = (s.owned.registered h).map some ∧
      Inv ⟨s.code.put h r, ⟨Function.update s.owned.registered h es, issued⟩⟩ := by
  obtain ⟨grown, ds, hgrow, htoken, rfl⟩ := hr
  obtain ⟨herasures, howned⟩ := hI.owned.replace h hgrow
  refine ⟨herasures, howned, (token_release grown _).trans htoken, ?_⟩
  intro h' key callback hmem
  simp only at hmem ⊢
  by_cases heq : h' = h
  · rw [heq, Function.update_self] at hmem
    exact hes key callback hmem
  · rw [Function.update_of_ne heq] at hmem
    exact (hI.issued h' key callback hmem).trans hle

theorem Inv.erasures_release (hI : s.Inv) (h : ℕ) :
    (s.code.release h).erasures = (s.owned.registered h).map some :=
  hI.owned.erasures h

theorem Inv.release (hI : s.Inv) (h : ℕ) :
    Inv ⟨s.code.release h, s.owned.step (.release h)⟩ := by
  have htakes := s.code.session.reset_takes (s.code.handles h)
  rw [hI.token] at htakes
  exact (hI.put htakes le_rfl (by simp)).2

theorem token_succ (o : Ownership κ) : o.token + 1 = UInt64.ofNat (o.issued + 1 + 1) := by
  rw [Ownership.token, UInt64.ofNat_add (o.issued + 1) 1]
  rfl

theorem toNat_token {o : Ownership κ} (hleft : o.issued + 1 < 2 ^ 64) :
    o.token.toNat = o.issued + 1 := by
  rw [Ownership.token, UInt64.toNat_ofNat', Nat.mod_eq_of_lt hleft]

/-- An admitted call runs only deleters of entries that its handle owned, and keeps the
handles the owners of the callbacks. -/
theorem inv_step (hI : s.Inv) (hleft : TokensLeft s op) (hsub : SubscribesNewId s op)
    (hreq : RequestsApart s op) (hs : s.step packer op = some t) :
    t.Inv ∧ t.code.erasures = (s.owned.givenUp op).map some := by
  rw [step, Option.map_eq_some_iff] at hs
  obtain ⟨code, hcode, rfl⟩ := hs
  cases op with
  | subscribe h messageId callback =>
      simp only [Client.step, Option.ite_none_right_eq_some, Option.some.injEq] at hcode
      obtain ⟨-, rfl⟩ := hcode
      have hnew : s.code.session.messageCallbacks.find? messageId = none := by
        rw [← Option.map_eq_none_iff (f := Node.value), ← NodeMap.lookup,
          Option.eq_none_iff_forall_ne_some]
        intro callback' hlookup
        obtain ⟨h', hmem⟩ := (hI.lookup_messageCallbacks _ _).mp hlookup
        exact hsub h' callback' hmem
      have htakes := ClientSession.subscribe_takes hnew (s.code.handles h) callback
      rw [hI.token] at htakes
      exact (hI.put htakes le_rfl (by simp)).symm
  | request h id payload responseId callback =>
      simp only [Client.step, Option.ite_none_right_eq_some, Option.some.injEq] at hcode
      obtain ⟨-, rfl⟩ := hcode
      have hnew := hI.find?_token (hleft rfl) responseId
      rw [← hI.token] at hnew
      have htakes := ClientSession.request_takes packer payload hnew (s.code.handles h) id callback
      rw [hI.token, token_succ] at htakes
      refine (hI.put htakes (Nat.le_succ _) ?_).symm
      simp [toNat_token (hleft rfl)]
  | requestMany h id payload callback =>
      simp only [Client.step, Option.ite_none_right_eq_some, Option.some.injEq] at hcode
      obtain ⟨-, rfl⟩ := hcode
      obtain ⟨hempty, hnodup⟩ := hreq
      have hhandle : s.code.handles h = [] := by
        have hheld := hI.owned.held h
        rw [hempty] at hheld
        exact List.map_eq_nil_iff.mp hheld
      have hnew := hI.find?_token (hleft rfl)
      rw [← hI.token] at hnew
      have htakes := ClientSession.requestMany_takes packer payload hnodup hnew id
      rw [hI.token, token_succ, ← hhandle] at htakes
      refine (hI.put htakes (Nat.le_succ _) ?_).symm
      intro key callback' hmem
      obtain ⟨c, -, heq⟩ := List.mem_map.mp hmem
      cases heq
      exact (toNat_token (hleft rfl)).le
  | release h =>
      simp only [Client.step, Option.some.injEq] at hcode
      subst hcode
      exact ⟨hI.release h, hI.erasures_release h⟩
  | destroy =>
      simp only [Client.step, Option.ite_none_right_eq_some, Option.some.injEq] at hcode
      obtain ⟨-, rfl⟩ := hcode
      exact ⟨⟨hI.owned, hI.token, hI.issued⟩, rfl⟩

end Tracked

end CohesionIpc.Strmd
