import CohesionIpc.Verification.Strmd.Ownership

/-! Request handles own the callbacks of their latest request as long as the multi-response
form gets an empty handle and distinct ids: its loop chains to whatever the handle holds. -/

namespace CohesionIpc.Strmd

open Transition

variable {κ : Type*}

/-- What request handles promise of a call that leads from `s` to `t`. -/
structure RequestsOwned (s : Tracked κ) (op : HandleOp κ) (t : Tracked κ) : Prop where
  erasures : t.code.erasures = (s.owned.givenUp op).map some
  entries : ∀ key callback, t.code.session.callbacks.lookup key = some callback ↔
    ∃ h, .request key callback ∈ t.owned.registered h
  held : ∀ h, (t.code.release h).erasures = (t.owned.registered h).map some

def HandleOp.isRequest : HandleOp κ → Bool
  | .subscribe .. => false
  | _ => true

namespace Tracked

variable {s t : Tracked κ} {op : HandleOp κ} {packer : Packer}

theorem requestsOwned_of_apart (hI : s.Inv) (hop : op.isRequest) (hleft : TokensLeft s op)
    (hapart : RequestsApart s op) (hs : s.step packer op = some t) :
    t.Inv ∧ RequestsOwned s op t := by
  have hnew : SubscribesNewId s op := by
    cases op <;> trivial
  obtain ⟨hI', herasures⟩ := inv_step hI hleft hnew hapart hs
  exact ⟨hI', herasures, hI'.lookup_callbacks, hI'.erasures_release⟩

theorem apart_of_requestsOwned (hI : s.Inv) (hs : s.step packer op = some t)
    (hT : RequestsOwned s op t) : RequestsApart s op := by
  cases op with
  | subscribe => trivial
  | request => trivial
  | release => trivial
  | destroy => trivial
  | requestMany h id payload callback =>
      rw [step, Option.map_eq_some_iff] at hs
      obtain ⟨code, hcode, rfl⟩ := hs
      simp only [Client.step, Option.ite_none_right_eq_some, Option.some.injEq] at hcode
      obtain ⟨-, rfl⟩ := hcode
      have hheld := hT.held h
      simp only [Client.release, ClientSession.reset, Client.put, Function.update_self,
        Ownership.step] at hheld
      generalize hr : ClientSession.requestMany packer s.code.session (s.code.handles h) id payload
        callback = r at hheld
      have hlength : r.handle.length = callback.length + (s.code.handles h).length := by
        rw [← hr, ClientSession.requestMany, ClientSession.requestInternal,
          ClientSession.length_foldl_chain]
      constructor
      · have heq := congrArg List.length hheld
        rw [Store.length_erasures, List.length_map, List.length_map, List.length_reverse,
          hlength] at heq
        have hnil : s.code.handles h = [] := List.length_eq_zero_iff.mp (by omega)
        have hreg := hI.owned.held h
        rw [hnil] at hreg
        exact List.map_eq_nil_iff.mp hreg.symm
      · have hnodup : r.handle.Nodup := by
          apply Store.nodup_of_erasures (S := store) (s := r.session)
          rw [hheld]
          intro e he
          obtain ⟨e', -, rfl⟩ := List.mem_map.mp he
          exact Option.some_ne_none e'
        rw [Store.erasures_of_nodup hnodup] at hheld
        have hkeys := ClientSession.keys_nodup hnodup hheld
        have hids : ((callback.reverse.map Prod.fst).map fun i =>
            (Sum.inr (i, s.owned.token) : Int32 ⊕ (Int32 × UInt64))).Nodup := by
          rw [List.map_map] at hkeys ⊢
          exact hkeys
        rw [List.map_reverse] at hids
        exact List.nodup_reverse.mp (List.Nodup.of_map _ hids)

theorem issued_step (hs : s.step packer op = some t) :
    t.owned.issued = s.owned.issued + if op.issues then 1 else 0 := by
  rw [step, Option.map_eq_some_iff] at hs
  obtain ⟨code, -, rfl⟩ := hs
  cases op <;> rfl

end Tracked

/-! ## Runs -/

/-- In a run of requests, releases and the end of the session with fewer than `2 ^ 64`
requests, request handles own the callbacks of their latest request throughout exactly when
every multi-response request is made with a handle that holds no earlier one and for
response ids that do not repeat. -/
theorem requests_owned_iff (packer : Packer) {ops : List (HandleOp κ)}
    (hops : ∀ op ∈ ops, op.isRequest) (hcount : ops.countP HandleOp.issues < 2 ^ 64)
    (hrun : (run (Tracked.step packer) .init ops).isSome) :
    Through (Tracked.step packer) RequestsOwned .init ops ↔
      Along (Tracked.step packer) RequestsApart .init ops := by
  have hleft : Along (Tracked.step packer) TokensLeft .init ops := by
    apply along_count_lt fun s : Tracked κ => s.owned.issued
    · exact fun s op t hs => Tracked.issued_step hs
    · rwa [Tracked.init, Ownership.init, Nat.zero_add]
  have hkind : Along (Tracked.step packer) (fun _ op => op.isRequest) .init ops :=
    along_of_forall (fun op hop _ => hops op hop) _
  apply through_iff_along Tracked.Inv
    (L := fun s op => op.isRequest ∧ TokensLeft s op)
  · rintro s op t hI ⟨hop, hleft⟩ hapart hs
    exact Tracked.requestsOwned_of_apart hI hop hleft hapart hs
  · intro s op t hI _ hs hT
    exact Tracked.apart_of_requestsOwned hI hs hT
  · exact Tracked.inv_init
  · exact hkind.and hleft
  · exact hrun

theorem requests_owned_iff_reused_handle :
    Through (Tracked.step Packer.varint) RequestsOwned (.init : Tracked ℕ)
        [.request 0 1 [] 5 10, .request 0 1 [] 5 11, .requestMany 1 1 [] [(5, 20), (6, 21)],
          .release 0, .release 1] ↔
      Along (Tracked.step Packer.varint) RequestsApart .init
        [.request 0 1 [] 5 10, .request 0 1 [] 5 11, .requestMany 1 1 [] [(5, 20), (6, 21)],
          .release 0, .release 1] :=
  requests_owned_iff Packer.varint (by decide) (by decide) (by rfl)

/-- A handle that holds a request keeps it through a multi-response one, and a repeated id
erases twice through one iterator. -/
theorem request_many_chains :
    ¬ Through (Tracked.step Packer.varint) RequestsOwned (.init : Tracked ℕ)
        [.request 0 1 [] 5 10, .requestMany 0 1 [] [(6, 20)]] ∧
      ∃ t : Tracked ℕ, run (Tracked.step Packer.varint) .init
          [.requestMany 0 1 [] [(5, 10), (5, 11)], .release 0] = some t ∧
        t.code.erasures = [some (.request (5, 1) 10), none] := by
  refine ⟨?_, _, rfl, rfl⟩
  intro h
  have hsecond := ((h _ rfl).2 _ rfl).1
  exact absurd (hsecond.held 0) (by decide)

end CohesionIpc.Strmd
