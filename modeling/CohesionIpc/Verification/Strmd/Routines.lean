import CohesionIpc.Verification.Strmd.Reentrance

/-! A session whose outbound channel returns at once: what a message or a task comes to as a
whole is a run of the session's calls, whatever else has not returned. -/

namespace CohesionIpc.Strmd

open Transition

variable {ε κ γ α : Type*}

/-- The calls of a routine while each `message` of the outbound channel just returns. -/
def Routine.calls : Routine γ → Bool → List (ServerCall κ γ α)
  | .done, _ => [.finish]
  | .throw, _ => [.throw]
  | .respond responseId value next, enabled =>
      .respond responseId value [] :: .finish :: next.calls enabled
  | .defer continuation next failed, enabled =>
      .defer continuation :: if enabled then next.calls enabled else failed.calls enabled

namespace ServerCalls

/-- What the calls serialize, in order. -/
def written [Inhabited α] (packer : Packer) :
    ServerCalls κ γ α → List (ServerCall κ γ α) → List (List UInt8)
  | _, [] => []
  | s, e :: calls =>
      (writes packer s e).toList ++
        match s.step packer e with
        | some t => written packer t calls
        | none => []

/-- A run of the calls from `s` comes to what the big step says. -/
structure ComesTo [Inhabited α] (packer : Packer) (s : ServerCalls κ γ α)
    (calls : List (ServerCall κ γ α)) (request : ℕ) (done : Handled γ)
    (t : ServerCalls κ γ α) : Prop where
  run : run (step packer) s calls = some t
  queue : t.queue = s.queue ++ (done.scheduled.map fun task => ⟨task, request⟩).toList
  thrown : t.thrown = done.raised
  written : s.written packer calls = done.sent.map Sent.payload

variable [Inhabited α] {packer : Packer} {s t u : ServerCalls κ γ α} {e : ServerCall κ γ α}
  {calls : List (ServerCall κ γ α)} {request : ℕ} {done : Handled γ}

/-- A call in front that serializes nothing and leaves the queue alone. -/
theorem ComesTo.cons (h : ComesTo packer t calls request done u)
    (hs : s.step packer e = some t) (hqueue : t.queue = s.queue)
    (hwrites : writes packer s e = none) : ComesTo packer s (e :: calls) request done u := by
  refine ⟨run_cons_eq_some.mpr ⟨t, hs, h.run⟩, by rw [h.queue, hqueue], h.thrown, ?_⟩
  rw [ServerCalls.written, hwrites, hs, ← h.written]
  rfl

theorem comesTo_routine (body : Routine γ) {b : Body κ γ α} {r : Response γ}
    {rest : List (ServerFrame κ γ α)} (hstack : s.stack = .invocation request b r :: rest)
    (session : ServerSession) :
    ∃ t, t.stack = rest ∧ t.apartment = s.apartment ∧
      ComesTo packer s (body.calls r.deferralEnabled) request
        ((body.run packer session r).schedule r.token) t := by
  induction body generalizing s r session with
  | done =>
      have hs : s.step packer .finish = some { s with
          stack := rest
          queue := s.queue ++ (r.continuation.map fun k => ⟨⟨r.token, k⟩, request⟩).toList
          thrown := false } := by
        simp only [step, hstack]
      refine ⟨_, ?_, ?_, ⟨run_cons_eq_some.mpr ⟨_, hs, rfl⟩, ?_, ?_, ?_⟩⟩
      · rfl
      · rfl
      · simp only [Routine.run, Ran.schedule, Bool.false_eq_true, if_false, Option.map_map]
        rfl
      · rfl
      · simp only [Routine.calls, ServerCalls.written, hs]
        rfl
  | throw =>
      have hs : s.step packer .throw = some { s with stack := rest, thrown := true } := by
        simp only [step, hstack]
      refine ⟨_, ?_, ?_, ⟨run_cons_eq_some.mpr ⟨_, hs, rfl⟩, ?_, ?_, ?_⟩⟩
      · rfl
      · rfl
      · simp [Routine.run, Ran.schedule]
      · rfl
      · simp only [Routine.calls, ServerCalls.written, hs]
        rfl
  | respond responseId value next ih =>
      have hs : s.step packer (.respond responseId value []) = some (s.messageWith packer
          responseId (packer.token.encode r.token ++ value) []) := by
        simp only [step, hstack]
      have hwrites : writes packer s (.respond responseId value []) =
          some (packer.id.encode responseId ++ (packer.token.encode r.token ++ value)) := by
        simp only [writes, hstack]
      -- the outbound channel returns, and the routine goes on
      rcases ih (s := { s.messageWith packer responseId (packer.token.encode r.token ++ value) []
          with stack := s.stack, thrown := false }) hstack
        (session.respond packer r responseId value) with ⟨t, ht, hapartment, hnext⟩
      refine ⟨t, ht, hapartment, ?_, hnext.queue, hnext.thrown, ?_⟩
      · exact run_cons_eq_some.mpr ⟨_, hs, run_cons_eq_some.mpr ⟨_, rfl, hnext.run⟩⟩
      · have hwritten := hnext.written
        simp only [Routine.calls, ServerCalls.written, hs, hwrites]
        exact congrArg (List.cons _) hwritten
  | defer continuation next failed ihnext ihfailed =>
      by_cases henabled : r.deferralEnabled
      · have hs : s.step packer (.defer continuation) = some { s with
            stack := .invocation request b { r with continuation := continuation } :: rest
            thrown := false } := by
          simp only [step, hstack, if_pos henabled]
        rcases ihnext (s := { s with
            stack := .invocation request b { r with continuation := continuation } :: rest
            thrown := false }) rfl session with ⟨t, ht, hapartment, hnext⟩
        refine ⟨t, ht, hapartment, ?_⟩
        rw [Routine.calls, Routine.run, if_pos henabled, if_pos henabled]
        exact hnext.cons hs rfl rfl
      · have hs : s.step packer (.defer continuation) = some { s with thrown := true } := by
          simp only [step, hstack, if_neg henabled]
        rcases ihfailed (s := { s with thrown := true }) hstack session with
          ⟨t, ht, hapartment, hnext⟩
        refine ⟨t, ht, hapartment, ?_⟩
        rw [Routine.calls, Routine.run, if_neg henabled, if_neg henabled]
        exact hnext.cons hs rfl rfl

/-! ## Messages and tasks as a whole -/

variable {code : ServerCode ε γ} {env : ε} {session : ServerSession}

/-- Handlers without arguments, the same ones in the table and in `code`. -/
structure Serves (code : ServerCode ε γ) (s : ServerCalls κ γ α) : Prop where
  handlers : ∀ id, (s.handlers id).isSome = (code.handlers id).isSome
  plain : ∀ id h, s.handlers id = some h → h.parameter = none

/-- Nothing is called. -/
theorem comesTo_nothing {thrown : Bool} (hs : s.step packer e = some { s with thrown := thrown })
    (hwrites : writes packer s e = none) (session : ServerSession) :
    ComesTo packer s [e] request ⟨session, [], none, thrown⟩ { s with thrown := thrown } := by
  have hnil : ComesTo packer { s with thrown := thrown } [] request
      (⟨session, [], none, thrown⟩ : Handled γ) { s with thrown := thrown } :=
    ⟨rfl, (List.append_nil _).symm, rfl, rfl⟩
  exact hnil.cons hs rfl hwrites

/-- An inbound message is a run: a handler is called, and goes through its routine. -/
theorem comesTo_message (hserves : s.Serves code) (hapartment : session.apartment = s.apartment)
    (payload : List UInt8) :
    ∃ calls t, t.stack = s.stack ∧ t.apartment = s.apartment ∧
      ComesTo packer s (.message payload :: calls) s.requests
        (session.message code packer env payload) t := by
  cases hid : packer.id.decode payload with
  | none =>
      have hs : s.step packer (.message payload) = some { s with thrown := true } := by
        simp only [step, message, hid]
      refine ⟨[], { s with thrown := true }, rfl, rfl, ?_⟩
      simp only [ServerSession.message, hid]
      exact comesTo_nothing hs rfl session
  | some pair =>
      rcases pair with ⟨id, d'⟩
      cases htoken : packer.token.decode d' with
      | none =>
          have hs : s.step packer (.message payload) = some { s with thrown := true } := by
            simp only [step, message, hid, htoken]
          refine ⟨[], { s with thrown := true }, rfl, rfl, ?_⟩
          simp only [ServerSession.message, hid, htoken]
          exact comesTo_nothing hs rfl session
      | some pair =>
          rcases pair with ⟨token, d⟩
          have hsame := hserves.handlers id
          cases hh : s.handlers id with
          | none =>
              rw [hh, Option.isSome_none] at hsame
              have hnone := Option.isSome_eq_false_iff.mp hsame.symm
              rw [Option.isNone_iff_eq_none] at hnone
              have hs : s.step packer (.message payload) = some { s with thrown := false } := by
                simp only [step, message, hid, htoken, hh]
              refine ⟨[], { s with thrown := false }, rfl, rfl, ?_⟩
              simp only [ServerSession.message, hid, htoken, hnone]
              exact comesTo_nothing hs rfl session
          | some h =>
              rw [hh, Option.isSome_some] at hsame
              rcases Option.isSome_iff_exists.mp hsame.symm with ⟨routine, hroutine⟩
              have hs : s.step packer (.message payload) = some
                  ({ s with requests := s.requests + 1 }.invoke s.requests
                    (.handler id h.registration h.underlying none) token s.apartment) := by
                simp only [step, message, hid, htoken, hh, callHandler, hserves.plain id h hh]
              rcases comesTo_routine (routine env d)
                (s := { s with requests := s.requests + 1 }.invoke s.requests
                    (.handler id h.registration h.underlying none) token s.apartment) rfl
                session with ⟨t, ht, hap, hnext⟩
              refine ⟨(routine env d).calls s.apartment, t, ht, hap, ?_⟩
              simp only [ServerSession.message, hid, htoken, hroutine, hapartment]
              exact hnext.cons hs rfl rfl

/-- So is a task, after it has been taken out of the queue. -/
theorem comesTo_task {i : ℕ} {q : Queued γ} (hq : s.queue[i]? = some q) :
    ∃ taken calls t, s.step packer (.runTask i) = some taken ∧
      taken.queue = s.queue.eraseIdx i ∧ t.stack = s.stack ∧ t.apartment = s.apartment ∧
      ComesTo packer taken calls q.request (session.runTask code packer env q.task) t := by
  have hs : s.step packer (.runTask i) = some
      ({ s with queue := s.queue.eraseIdx i }.invoke q.request
        (.continuation q.task.continuation) q.task.token true) := by
    simp only [step, hq, Option.map_some]
  rcases comesTo_routine (code.resume q.task.continuation env)
    (s := { s with queue := s.queue.eraseIdx i }.invoke q.request
      (.continuation q.task.continuation) q.task.token true) rfl session with ⟨t, ht, hap, hnext⟩
  exact ⟨_, _, t, hs, rfl, ht, hap, hnext⟩

end ServerCalls

end CohesionIpc.Strmd
