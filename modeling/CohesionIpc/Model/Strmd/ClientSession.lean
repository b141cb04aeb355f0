import CohesionIpc.Foundation.Codec
import CohesionIpc.Foundation.NodeMap
import CohesionIpc.Foundation.Ownership
import Mathlib.Data.Prod.Lex

/-! `strmd::client_session`: the callback maps, the handles that own their entries, and the
dispatch of an inbound message. -/

namespace CohesionIpc.Strmd

/-- What the sessions use of the serialization library: one codec for `int`, one for
`token_t`. -/
structure Packer where
  id : Codec Int32
  token : Codec UInt64

/-- A packer of the `varint` kind. -/
def Packer.varint : Packer := ⟨Codec.int32, Codec.uint64⟩

/-- The maps are held by the session and by every deleter, so they outlive the session. -/
structure ClientSession (κ : Type*) where
  buffer : List UInt8
  token : UInt64
  callbacks : NodeMap (Int32 × UInt64) κ
  messageCallbacks : NodeMap Int32 κ

/-- The deleter of a handle erases one entry of `_message_callbacks` or of `_callbacks`. -/
inductive Deleter
  | message (i : ℕ)
  | request (j : ℕ)
deriving DecidableEq, Repr

/-- A handle is the only owner of its deleter. A deleter that captured another handle
(`h2`) runs before that one is given up; the empty list is the null handle. -/
abbrev Handle := List Deleter

inductive Entry (κ : Type*)
  | message (id : Int32) (callback : κ)
  | request (key : Int32 × UInt64) (callback : κ)
deriving DecidableEq, Repr

variable {κ : Type*}

/-- The key of an entry, with the map it is in. -/
def Entry.key : Entry κ → Int32 ⊕ (Int32 × UInt64)
  | .message id _ => .inl id
  | .request key _ => .inr key

def ClientSession.entry (s : ClientSession κ) : Deleter → Option (Entry κ)
  | .message i => (s.messageCallbacks.deref i).map fun n => .message n.key n.value
  | .request j => (s.callbacks.deref j).map fun n => .request n.key n.value

def ClientSession.erase (s : ClientSession κ) : Deleter → ClientSession κ
  | .message i => { s with messageCallbacks := s.messageCallbacks.erase i }
  | .request j => { s with callbacks := s.callbacks.erase j }

/-- The session as a store of callbacks. -/
def store : Store (ClientSession κ) Deleter (Entry κ) where
  entry := ClientSession.entry
  erase := ClientSession.erase
  entry_erase_self s d := by
    cases d <;> simp [ClientSession.entry, ClientSession.erase]
  entry_erase_of_ne s d d' hne := by
    cases d <;> cases d' <;>
      simp_all [ClientSession.entry, ClientSession.erase, NodeMap.deref_erase_of_ne]

@[simp] theorem store_entry_message (s : ClientSession κ) (i : ℕ) :
    store.entry s (.message i) =
      (s.messageCallbacks.deref i).map fun n => .message n.key n.value := rfl

@[simp] theorem store_entry_request (s : ClientSession κ) (j : ℕ) :
    store.entry s (.request j) = (s.callbacks.deref j).map fun n => .request n.key n.value := rfl

namespace ClientSession

def init : ClientSession κ := ⟨[], 1, .empty, .empty⟩

/-- The session and one handle after a call that takes the handle, with what the deleters
run by the call have found. -/
structure Held (κ : Type*) where
  session : ClientSession κ
  handle : Handle
  erasures : List (Option (Entry κ))

/-- `handle.reset(..)`: the new deleter is in place when the old ones run. -/
def reset (s : ClientSession κ) (handle new : Handle) : Held κ :=
  ⟨store.release s handle, new, store.erasures s handle⟩

def subscribe (s : ClientSession κ) (handle : Handle) (messageId : Int32) (callback : κ) :
    Held κ :=
  let inserted := s.messageCallbacks.insert messageId callback
  reset { s with messageCallbacks := inserted.1 } handle [.message inserted.2]

/-- `request_internal`. The message goes out last: it is the `buffer` of the session the
call ends in. `payload` is the argument as serialized. -/
def requestInternal (packer : Packer) (s : ClientSession κ) (id : Int32) (payload : List UInt8)
    (callbackCtor : UInt64 → ClientSession κ → Held κ) : Held κ :=
  let token := s.token
  callbackCtor token
    { s with
      buffer := packer.id.encode id ++ packer.token.encode token ++ payload
      token := s.token + 1 }

/-- The single-response form of `request`. -/
def request (packer : Packer) (s : ClientSession κ) (handle : Handle) (id : Int32)
    (payload : List UInt8) (responseId : Int32) (callback : κ) : Held κ :=
  requestInternal packer s id payload fun token s =>
    let inserted := s.callbacks.insert (responseId, token) callback
    reset { s with callbacks := inserted.1 } handle [.request inserted.2]

/-- One turn of the loop of the multi-response form. -/
def Held.chain (token : UInt64) (r : Held κ) (i : Int32 × κ) : Held κ :=
  let inserted := r.session.callbacks.insert (i.1, token) i.2
  let session := { r.session with callbacks := inserted.1 }
  if r.handle ≠ [] then
    -- `h2` moves into the new deleter: nothing is released
    ⟨session, .request inserted.2 :: r.handle, r.erasures⟩
  else
    let done := reset session r.handle [.request inserted.2]
    { done with erasures := r.erasures ++ done.erasures }

/-- The multi-response form of `request`. -/
def requestMany (packer : Packer) (s : ClientSession κ) (handle : Handle) (id : Int32)
    (payload : List UInt8) (callback : List (Int32 × κ)) : Held κ :=
  requestInternal packer s id payload fun token s =>
    callback.foldl (Held.chain token) ⟨s, handle, []⟩

/-! ## Dispatch -/

/-- What `message` does with a payload: decoding raised, nobody was called, or a callback
was called with the deserializer in front of `rest`. -/
inductive Dispatch (κ : Type*)
  | raised
  | ignored
  | call (callback : κ) (rest : List UInt8)
deriving DecidableEq, Repr

/-- The order of `_callbacks`. -/
def rank (key : Int32 × UInt64) : ℤ ×ₗ ℕ := toLex (key.1.toInt, key.2.toNat)

def message (packer : Packer) (s : ClientSession κ) (payload : List UInt8) : Dispatch κ :=
  match packer.id.decode payload with
  | none => .raised
  | some (responseId, d) =>
      match s.messageCallbacks.find? responseId with
      | some m => .call m.value d
      | none =>
          if s.callbacks.lowerBound rank (toLex (responseId.toInt, 0)) ≠
              s.callbacks.upperBound rank (toLex (responseId.toInt, 2 ^ 64 - 1)) then
            match packer.token.decode d with
            | none => .raised
            | some (token, d) =>
                match s.callbacks.find? (responseId, token) with
                | some i => .call i.value d
                | none => .ignored
          else .ignored

/-- The bounds differ exactly when a request waits for this response id. -/
theorem bounds_ne_iff (s : ClientSession κ) (responseId : Int32) :
    s.callbacks.lowerBound rank (toLex (responseId.toInt, 0)) ≠
        s.callbacks.upperBound rank (toLex (responseId.toInt, 2 ^ 64 - 1)) ↔
      ∃ n ∈ s.callbacks.nodes, n.key.1 = responseId := by
  rw [NodeMap.lowerBound_ne_upperBound rank (by simp [Prod.Lex.toLex_le_toLex])]
  constructor
  · rintro ⟨n, hn, hlow, hhigh⟩
    refine ⟨n, hn, Int32.toInt_inj.mp ?_⟩
    simp only [rank, Prod.Lex.toLex_le_toLex] at hlow hhigh
    omega
  · rintro ⟨n, hn, rfl⟩
    have hlt := n.key.2.toNat_lt
    refine ⟨n, hn, ?_, ?_⟩
    · simp [rank, Prod.Lex.toLex_le_toLex]
    · simp only [rank, Prod.Lex.toLex_le_toLex, lt_irrefl, true_and, false_or]
      omega

variable {s : ClientSession κ} {packer : Packer} {payload d : List UInt8} {responseId : Int32}

theorem message_of_subscribed (hid : packer.id.decode payload = some (responseId, d)) {callback : κ}
    (h : s.messageCallbacks.lookup responseId = some callback) :
    s.message packer payload = .call callback d := by
  obtain ⟨m, hm, rfl⟩ := Option.map_eq_some_iff.mp h
  simp [message, hid, hm]

/-- Without a subscription on the id, a response goes to the callback under its key. -/
theorem message_of_token (hid : packer.id.decode payload = some (responseId, d))
    (hsub : s.messageCallbacks.lookup responseId = none) {token : UInt64} {rest : List UInt8}
    (htoken : packer.token.decode d = some (token, rest)) :
    s.message packer payload =
      match s.callbacks.lookup (responseId, token) with
      | some callback => .call callback rest
      | none => .ignored := by
  rw [NodeMap.lookup, Option.map_eq_none_iff] at hsub
  by_cases hbounds : ∃ n ∈ s.callbacks.nodes, n.key.1 = responseId
  · have hne := (bounds_ne_iff s responseId).mpr hbounds
    simp only [message, hid, hsub, if_pos hne, htoken, NodeMap.lookup]
    cases s.callbacks.find? (responseId, token) <;> rfl
  · have heq := mt (bounds_ne_iff s responseId).mp hbounds
    have hnone : s.callbacks.find? (responseId, token) = none := by
      rw [Option.eq_none_iff_forall_ne_some]
      intro n hn
      obtain ⟨hmem, hkey⟩ := NodeMap.find?_eq_some.mp hn
      exact hbounds ⟨n, hmem, by rw [hkey]⟩
    simp only [message, hid, hsub, if_neg heq, NodeMap.lookup, hnone, Option.map_none]

/-- A message with an id that nobody waits for is ignored, whatever follows the id. -/
theorem message_of_nobody (hid : packer.id.decode payload = some (responseId, d))
    (hsub : s.messageCallbacks.lookup responseId = none)
    (hreq : ∀ n ∈ s.callbacks.nodes, n.key.1 ≠ responseId) :
    s.message packer payload = .ignored := by
  have heq := mt (bounds_ne_iff s responseId).mp (by simpa using hreq)
  rw [NodeMap.lookup, Option.map_eq_none_iff] at hsub
  simp only [message, hid, hsub, if_neg heq]

/-! ## The maps as the store -/

theorem exists_entry_message (s : ClientSession κ) (id : Int32) (callback : κ) :
    (∃ d, store.entry s d = some (.message id callback)) ↔
      s.messageCallbacks.lookup id = some callback := by
  simp only [NodeMap.lookup, Option.map_eq_some_iff, NodeMap.find?_eq_some]
  constructor
  · rintro ⟨d, hd⟩
    cases d with
    | message i =>
        obtain ⟨n, hn, heq⟩ := Option.map_eq_some_iff.mp hd
        cases heq
        exact ⟨n, ⟨(NodeMap.deref_eq_some.mp hn).1, rfl⟩, rfl⟩
    | request j =>
        obtain ⟨n, -, heq⟩ := Option.map_eq_some_iff.mp hd
        cases heq
  · rintro ⟨n, ⟨hn, rfl⟩, rfl⟩
    exact ⟨.message n.address,
      Option.map_eq_some_iff.mpr ⟨n, NodeMap.deref_eq_some.mpr ⟨hn, rfl⟩, rfl⟩⟩

theorem exists_entry_request (s : ClientSession κ) (key : Int32 × UInt64) (callback : κ) :
    (∃ d, store.entry s d = some (.request key callback)) ↔
      s.callbacks.lookup key = some callback := by
  simp only [NodeMap.lookup, Option.map_eq_some_iff, NodeMap.find?_eq_some]
  constructor
  · rintro ⟨d, hd⟩
    cases d with
    | message i =>
        obtain ⟨n, -, heq⟩ := Option.map_eq_some_iff.mp hd
        cases heq
    | request j =>
        obtain ⟨n, hn, heq⟩ := Option.map_eq_some_iff.mp hd
        cases heq
        exact ⟨n, ⟨(NodeMap.deref_eq_some.mp hn).1, rfl⟩, rfl⟩
  · rintro ⟨n, ⟨hn, rfl⟩, rfl⟩
    exact ⟨.request n.address,
      Option.map_eq_some_iff.mpr ⟨n, NodeMap.deref_eq_some.mpr ⟨hn, rfl⟩, rfl⟩⟩

/-- The deleters of two entries with one key are the same. -/
theorem entry_inj {d d' : Deleter} {e e' : Entry κ} (he : store.entry s d = some e)
    (he' : store.entry s d' = some e') (hkey : e.key = e'.key) : d = d' := by
  cases d <;> cases d' <;>
    obtain ⟨n, hn, rfl⟩ := Option.map_eq_some_iff.mp he <;>
    obtain ⟨n', hn', rfl⟩ := Option.map_eq_some_iff.mp he' <;>
    simp only [Entry.key, Sum.inl.injEq, Sum.inr.injEq, reduceCtorEq] at hkey
  all_goals
    obtain ⟨hmem, rfl⟩ := NodeMap.deref_eq_some.mp hn
    obtain ⟨hmem', rfl⟩ := NodeMap.deref_eq_some.mp hn'
    rw [NodeMap.eq_of_key hmem hmem' hkey]

/-- Entries behind distinct deleters have distinct keys. -/
theorem keys_nodup {ds : List Deleter} {es : List (Entry κ)} (hds : ds.Nodup)
    (hentry : ds.map (store.entry s) = es.map some) : (es.map Entry.key).Nodup := by
  induction ds generalizing es with
  | nil =>
      rw [List.map_nil, eq_comm, List.map_eq_nil_iff] at hentry
      rw [hentry]
      exact List.nodup_nil
  | cons d ds ih =>
      cases es with
      | nil => cases hentry
      | cons e es =>
          rw [List.map_cons, List.map_cons, List.cons.injEq] at hentry
          rw [List.nodup_cons] at hds
          rw [List.map_cons, List.nodup_cons]
          refine ⟨?_, ih hds.2 hentry.2⟩
          intro hmem
          obtain ⟨e', he', hkey⟩ := List.mem_map.mp hmem
          have hsome : some e' ∈ ds.map (store.entry s) := by
            rw [hentry.2]
            exact List.mem_map_of_mem he'
          obtain ⟨d', hd', hentry'⟩ := List.mem_map.mp hsome
          exact hds.1 (entry_inj hentry.1 hentry' hkey.symm ▸ hd')

/-- A subscription with a new id adds one entry. -/
theorem grows_messageCallbacks {id : Int32} (h : s.messageCallbacks.find? id = none)
    (callback : κ) :
    let inserted := s.messageCallbacks.insert id callback
    store.Grows s { s with messageCallbacks := inserted.1 } [.message inserted.2]
      [.message id callback] := by
  intro inserted
  obtain ⟨hfresh, hentry, hrest⟩ := NodeMap.deref_insert_of_none h callback
  refine ⟨List.nodup_singleton _, ?_, ?_, ?_⟩
  · simp [inserted, hfresh]
  · simp [inserted, hentry]
  · intro d hd
    cases d with
    | message i =>
        have hne : i ≠ inserted.2 := by simpa using hd
        rw [store_entry_message, store_entry_message, hrest i hne]
    | request j => rfl

/-- A registration under a new key adds one entry. -/
theorem grows_callbacks {key : Int32 × UInt64} (h : s.callbacks.find? key = none)
    (callback : κ) :
    let inserted := s.callbacks.insert key callback
    store.Grows s { s with callbacks := inserted.1 } [.request inserted.2]
      [.request key callback] := by
  intro inserted
  obtain ⟨hfresh, hentry, hrest⟩ := NodeMap.deref_insert_of_none h callback
  refine ⟨List.nodup_singleton _, ?_, ?_, ?_⟩
  · simp [inserted, hfresh]
  · simp [inserted, hentry]
  · intro d hd
    cases d with
    | message i => rfl
    | request j =>
        have hne : j ≠ inserted.2 := by simpa using hd
        rw [store_entry_request, store_entry_request, hrest j hne]

/-! ## Calls that take a handle -/

/-- Each turn of the multi-response form adds one deleter and releases nothing. -/
theorem Held.chain_eq (token : UInt64) (r : Held κ) (c : Int32 × κ) :
    r.chain token c =
      let inserted := r.session.callbacks.insert (c.1, token) c.2
      ⟨{ r.session with callbacks := inserted.1 }, .request inserted.2 :: r.handle,
        r.erasures⟩ := by
  by_cases h : r.handle = []
  · simp [chain, h, reset, Store.release, Store.erasures]
  · simp [chain, h]

theorem length_foldl_chain (token : UInt64) (callback : List (Int32 × κ))
    (r : Held κ) :
    (callback.foldl (Held.chain token) r).handle.length = callback.length + r.handle.length := by
  induction callback generalizing r with
  | nil => simp
  | cons c callback ih =>
      rw [List.foldl_cons, ih, Held.chain_eq]
      simp only [List.length_cons]
      omega

/-- With a token that is not in use and distinct ids every turn inserts. -/
theorem grows_foldl_chain {k : UInt64} {callback : List (Int32 × κ)} {r : Held κ}
    (hnodup : (callback.map Prod.fst).Nodup)
    (hfresh : ∀ c ∈ callback, r.session.callbacks.find? (c.1, k) = none) :
    let r' := callback.foldl (Held.chain k) r
    ∃ ds, r'.handle = ds ++ r.handle ∧ r'.erasures = r.erasures ∧
      r'.session.token = r.session.token ∧
      store.Grows r.session r'.session ds
        (callback.reverse.map fun c => .request (c.1, k) c.2) := by
  induction callback generalizing r with
  | nil => exact ⟨[], rfl, rfl, rfl, .refl _⟩
  | cons c callback ih =>
      obtain ⟨hc, hnodup⟩ := List.nodup_cons.mp hnodup
      have hgrow := grows_callbacks (hfresh c List.mem_cons_self) c.2
      have hnext : ∀ c' ∈ callback,
          (r.chain k c).session.callbacks.find? (c'.1, k) = none := by
        intro c' hc'
        have hne : (c'.1, k) ≠ (c.1, k) := by
          intro heq
          apply hc
          rw [← congrArg Prod.fst heq]
          exact List.mem_map_of_mem hc'
        rw [Held.chain_eq, NodeMap.find?_insert_of_ne hne]
        exact hfresh c' (List.mem_cons_of_mem _ hc')
      obtain ⟨ds, hhandle, herasures, htoken, hds⟩ := ih hnodup hnext
      rw [Held.chain_eq] at hhandle herasures htoken hds
      refine ⟨ds ++ [.request (r.session.callbacks.insert (c.1, k) c.2).2], ?_, ?_, ?_, ?_⟩
      · rw [List.foldl_cons, Held.chain_eq, hhandle, List.append_assoc, List.singleton_append]
      · rw [List.foldl_cons, Held.chain_eq, herasures]
      · rw [List.foldl_cons, Held.chain_eq, htoken]
      · rw [List.foldl_cons, Held.chain_eq, List.reverse_cons, List.map_append]
        exact hgrow.trans hds

/-- A call has registered `es` in a session, which then has the token `token`, and has put
their deleters into the handle in place of those it held. -/
def Held.Takes (r : Held κ) (s : ClientSession κ) (handle : Handle) (es : List (Entry κ))
    (token : UInt64) : Prop :=
  ∃ grown ds, store.Grows s grown ds es ∧ grown.token = token ∧ r = grown.reset handle ds

theorem reset_takes (s : ClientSession κ) (handle : Handle) :
    (s.reset handle []).Takes s handle [] s.token := ⟨s, [], .refl s, rfl, rfl⟩

theorem subscribe_takes {messageId : Int32} (h : s.messageCallbacks.find? messageId = none)
    (handle : Handle) (callback : κ) :
    (s.subscribe handle messageId callback).Takes s handle [.message messageId callback]
      s.token :=
  ⟨_, _, grows_messageCallbacks h callback, rfl, rfl⟩

/-- The part of a request before anything is registered. -/
theorem grows_requestInternal (s : ClientSession κ) (buffer : List UInt8) (token : UInt64) :
    store.Grows s { s with buffer := buffer, token := token } [] [] :=
  ⟨List.nodup_nil, fun _ h => absurd h List.not_mem_nil, rfl, fun d _ => by cases d <;> rfl⟩

theorem request_takes (packer : Packer) (payload : List UInt8)
    (h : s.callbacks.find? (responseId, s.token) = none) (handle : Handle) (id : Int32)
    (callback : κ) :
    (s.request packer handle id payload responseId callback).Takes s handle
      [.request (responseId, s.token) callback] (s.token + 1) := by
  have hgrow := grows_requestInternal s
    (packer.id.encode id ++ packer.token.encode s.token ++ payload) (s.token + 1)
  exact ⟨_, _, hgrow.trans (grows_callbacks (s := { s with
    buffer := packer.id.encode id ++ packer.token.encode s.token ++ payload
    token := s.token + 1 }) h callback), rfl, rfl⟩

theorem requestMany_takes (packer : Packer) (payload : List UInt8)
    {callback : List (Int32 × κ)} (hnodup : (callback.map Prod.fst).Nodup)
    (h : ∀ id, s.callbacks.find? (id, s.token) = none) (id : Int32) :
    (s.requestMany packer [] id payload callback).Takes s []
      (callback.reverse.map fun c => .request (c.1, s.token) c.2) (s.token + 1) := by
  have hgrow := grows_requestInternal s
    (packer.id.encode id ++ packer.token.encode s.token ++ payload) (s.token + 1)
  have hfold := grows_foldl_chain (k := s.token) (r := ⟨{ s with
    buffer := packer.id.encode id ++ packer.token.encode s.token ++ payload
    token := s.token + 1 }, [], []⟩) hnodup fun c _ => h c.1
  rw [requestMany, requestInternal]
  generalize List.foldl _ _ callback = r at hfold ⊢
  obtain ⟨session, handle, erasures⟩ := r
  obtain ⟨ds, hhandle, herasures, htoken, hds⟩ := hfold
  simp only [List.append_nil] at hhandle herasures
  have hall := hgrow.trans hds
  rw [List.append_nil, List.append_nil] at hall
  refine ⟨session, ds, hall, htoken, ?_⟩
  rw [hhandle, herasures]
  rfl

/-! ## The message of a request -/

@[simp] theorem buffer_release (s : ClientSession κ) (ds : List Deleter) :
    (store.release s ds).buffer = s.buffer := by
  induction ds generalizing s with
  | nil => rfl
  | cons d ds ih =>
      rw [Store.release, List.foldl_cons, ← Store.release, ih]
      cases d <;> rfl

theorem buffer_request (s : ClientSession κ) (handle : Handle) (id : Int32) (callback : κ) :
    (s.request packer handle id payload responseId callback).session.buffer =
      packer.id.encode id ++ packer.token.encode s.token ++ payload := by
  simp [request, requestInternal, reset]

theorem buffer_foldl_chain (token : UInt64) (callback : List (Int32 × κ)) (r : Held κ) :
    (callback.foldl (Held.chain token) r).session.buffer = r.session.buffer := by
  induction callback generalizing r with
  | nil => rfl
  | cons c callback ih => rw [List.foldl_cons, ih, Held.chain_eq]

theorem buffer_requestMany (s : ClientSession κ) (handle : Handle) (id : Int32)
    (callback : List (Int32 × κ)) :
    (s.requestMany packer handle id payload callback).session.buffer =
      packer.id.encode id ++ packer.token.encode s.token ++ payload := by
  rw [requestMany, requestInternal, buffer_foldl_chain]

end ClientSession

end CohesionIpc.Strmd
