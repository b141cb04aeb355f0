import CohesionIpc.Model.Strmd.ClientSession

/-! `strmd::server_session`: the dispatch of requests to handlers, responses, and the
continuations that handlers defer to the apartment queue. -/

namespace CohesionIpc.Strmd

/-- What a handler or a continuation does with its `response`. `γ` is the type of
continuations; `none` is an empty function. A `defer` goes on with `failed` when it throws:
the code may catch that or not. -/
inductive Routine (γ : Type*)
  | done
  | throw
  | respond (responseId : Int32) (value : List UInt8) (next : Routine γ)
  | defer (continuation : Option γ) (next failed : Routine γ)

/-- The code around a session: the handler table and what each continuation does. An
environment `ε` stands for whatever else that code depends on when it runs. -/
structure ServerCode (ε γ : Type*) where
  handlers : Int32 → Option (ε → List UInt8 → Routine γ)
  resume : γ → ε → Routine γ

/-- `apartment` says whether there is an apartment queue. -/
structure ServerSession where
  outboundBuffer : List UInt8
  apartment : Bool

structure Response (γ : Type*) where
  token : UInt64
  deferralEnabled : Bool
  continuation : Option γ

/-- One `respond` call with the payload it has passed to the outbound channel. -/
structure Sent where
  responseId : Int32
  value : List UInt8
  payload : List UInt8

/-- A continuation in the apartment queue. -/
structure Task (γ : Type*) where
  token : UInt64
  continuation : γ

/-- A deferred continuation beside the request whose handling has led to it. -/
structure Queued (γ : Type*) where
  task : Task γ
  request : ℕ

/-- The session after a handler or a continuation, its `respond` calls, what it has put into
the queue and whether it threw. -/
structure Handled (γ : Type*) where
  session : ServerSession
  sent : List Sent
  scheduled : Option (Task γ)
  raised : Bool

variable {ε γ : Type*}

namespace ServerSession

/-- `server_session::message` with a formatter: the buffer is rewritten and sent. -/
def messageWith (packer : Packer) (s : ServerSession) (messageId : Int32)
    (formatted : List UInt8) : ServerSession :=
  { s with outboundBuffer := packer.id.encode messageId ++ formatted }

/-- `response::respond`. -/
def respond (packer : Packer) (s : ServerSession) (r : Response γ) (responseId : Int32)
    (value : List UInt8) : ServerSession :=
  s.messageWith packer responseId (packer.token.encode r.token ++ value)

end ServerSession

/-- The state in which a routine ends. -/
structure Ran (γ : Type*) where
  session : ServerSession
  response : Response γ
  sent : List Sent
  raised : Bool

def Routine.run (packer : Packer) : Routine γ → ServerSession → Response γ → Ran γ
  | .done, s, r => ⟨s, r, [], false⟩
  | .throw, s, r => ⟨s, r, [], true⟩
  | .respond responseId value next, s, r =>
      let s := s.respond packer r responseId value
      let ran := next.run packer s r
      { ran with sent := ⟨responseId, value, s.outboundBuffer⟩ :: ran.sent }
  | .defer continuation next failed, s, r =>
      if r.deferralEnabled then next.run packer s { r with continuation := continuation }
      else failed.run packer s r

/-- `schedule_continuation` is reached when the routine has returned, and only with a
continuation. -/
def Ran.schedule (ran : Ran γ) (token : UInt64) : Handled γ where
  session := ran.session
  sent := ran.sent
  scheduled := if ran.raised then none else ran.response.continuation.map (Task.mk token)
  raised := ran.raised

namespace ServerSession

def message (code : ServerCode ε γ) (packer : Packer) (e : ε) (s : ServerSession)
    (payload : List UInt8) : Handled γ :=
  match packer.id.decode payload with
  | none => ⟨s, [], none, true⟩
  | some (requestId, d) =>
      match packer.token.decode d with
      | none => ⟨s, [], none, true⟩
      | some (token, d) =>
          match code.handlers requestId with
          | none => ⟨s, [], none, false⟩
          | some h => ((h e d).run packer s ⟨token, s.apartment, none⟩).schedule token

/-- The task that `schedule_continuation` puts into the queue. -/
def runTask (code : ServerCode ε γ) (packer : Packer) (e : ε) (s : ServerSession)
    (task : Task γ) : Handled γ :=
  ((code.resume task.continuation e).run packer s ⟨task.token, true, none⟩).schedule task.token

end ServerSession

/-! ## Tokens -/

/-- What a response with this token looks like on the wire. -/
def Sent.Carries (packer : Packer) (token : UInt64) (x : Sent) : Prop :=
  x.payload = packer.id.encode x.responseId ++ (packer.token.encode token ++ x.value)

/-- Everything sent and put into the queue belongs to the request with this token. -/
structure Handled.Answers (packer : Packer) (token : UInt64) (done : Handled γ) : Prop where
  sent : ∀ x ∈ done.sent, x.Carries packer token
  scheduled : ∀ task, done.scheduled = some task → task.token = token

variable {packer : Packer}

theorem Routine.run_carries (body : Routine γ) (packer : Packer) (s : ServerSession)
    (r : Response γ) : ∀ x ∈ (body.run packer s r).sent, x.Carries packer r.token := by
  induction body generalizing s r with
  | done => exact fun x h => absurd h List.not_mem_nil
  | throw => exact fun x h => absurd h List.not_mem_nil
  | respond responseId value next ih =>
      intro x hx
      rcases List.mem_cons.mp hx with rfl | hx
      · rfl
      · exact ih (s.respond packer r responseId value) r x hx
  | defer continuation next failed ihnext ihfailed =>
      rw [run]
      split
      · exact ihnext s _
      · exact ihfailed s r

theorem Ran.schedule_answers {ran : Ran γ} {token : UInt64}
    (hsent : ∀ x ∈ ran.sent, x.Carries packer token) :
    (ran.schedule token).Answers packer token := by
  refine ⟨hsent, ?_⟩
  intro task htask
  simp only [schedule] at htask
  split at htask
  · cases htask
  · obtain ⟨k, -, rfl⟩ := Option.map_eq_some_iff.mp htask
    rfl

namespace ServerSession

/-- The responses to a request, and the continuation it leaves, carry the token of the
message that brought it. -/
theorem message_answers (code : ServerCode ε γ) (e : ε) (s : ServerSession) (requestId : Int32)
    (token : UInt64) (payload : List UInt8) :
    (s.message code packer e
      (packer.id.encode requestId ++ (packer.token.encode token ++ payload))).Answers packer
        token := by
  rw [message, packer.id.decode_encode]
  simp only [packer.token.decode_encode]
  cases code.handlers requestId with
  | none => exact ⟨fun x h => absurd h List.not_mem_nil, fun task h => by cases h⟩
  | some h =>
      exact Ran.schedule_answers ((h e payload).run_carries packer s ⟨token, s.apartment, none⟩)

theorem runTask_answers (code : ServerCode ε γ) (e : ε) (s : ServerSession) (task : Task γ) :
    (s.runTask code packer e task).Answers packer task.token :=
  Ran.schedule_answers ((code.resume task.continuation e).run_carries packer s _)

end ServerSession

end CohesionIpc.Strmd
